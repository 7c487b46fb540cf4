import Mathlib.Data.Nat.Log
import Mathlib.Data.List.Nodup

namespace Bisection

-- The last point a bisection accepts, and the points it looks at on the way. The lower end
-- counts as accepted; a midpoint is rounded up.
def climb (accepts : Int → Bool) (lo hi : Int) : List Int × Int :=
  if lo < hi then
    let mid := (lo + hi + 1) / 2
    let rest := if accepts mid then climb accepts mid hi else climb accepts lo (mid - 1)
    (mid :: rest.1, rest.2)
  else ([], lo)
termination_by (hi - lo).toNat
decreasing_by all_goals omega

def looks (accepts : Int → Bool) (lo hi : Int) : List Int := (climb accepts lo hi).1

def last (accepts : Int → Bool) (lo hi : Int) : Int := (climb accepts lo hi).2

variable {accepts : Int → Bool} {lo hi mid q : Int}

section Steps

theorem climb_done (h : ¬lo < hi) : climb accepts lo hi = ([], lo) := by
  rw [climb, if_neg h]

theorem climb_step (h : lo < hi) (hmid : mid = (lo + hi + 1) / 2) :
    climb accepts lo hi =
      (mid :: (if accepts mid then climb accepts mid hi else climb accepts lo (mid - 1)).1,
        (if accepts mid then climb accepts mid hi else climb accepts lo (mid - 1)).2) := by
  rw [climb, if_pos h, hmid]

@[simp] theorem looks_done (h : ¬lo < hi) : looks accepts lo hi = [] := by
  rw [looks, climb_done h]

@[simp] theorem last_done (h : ¬lo < hi) : last accepts lo hi = lo := by
  rw [last, climb_done h]

theorem looks_accept (h : lo < hi) (hmid : mid = (lo + hi + 1) / 2) (ha : accepts mid = true) :
    looks accepts lo hi = mid :: looks accepts mid hi := by
  rw [looks, climb_step h hmid, if_pos ha, looks]

theorem looks_refuse (h : lo < hi) (hmid : mid = (lo + hi + 1) / 2) (ha : accepts mid = false) :
    looks accepts lo hi = mid :: looks accepts lo (mid - 1) := by
  rw [looks, climb_step h hmid, ha, looks]
  rfl

theorem last_accept (h : lo < hi) (hmid : mid = (lo + hi + 1) / 2) (ha : accepts mid = true) :
    last accepts lo hi = last accepts mid hi := by
  rw [last, climb_step h hmid, if_pos ha, last]

theorem last_refuse (h : lo < hi) (hmid : mid = (lo + hi + 1) / 2) (ha : accepts mid = false) :
    last accepts lo hi = last accepts lo (mid - 1) := by
  rw [last, climb_step h hmid, ha, last]
  rfl

-- Induction along a bisection.
theorem induct (accepts : Int → Bool) {P : Int → Int → Prop} (hdone : ∀ lo hi, ¬lo < hi → P lo hi)
    (haccept : ∀ lo hi mid, lo < mid → mid ≤ hi → mid = (lo + hi + 1) / 2 →
      accepts mid = true → P mid hi → P lo hi)
    (hrefuse : ∀ lo hi mid, lo < mid → mid ≤ hi → mid = (lo + hi + 1) / 2 →
      accepts mid = false → P lo (mid - 1) → P lo hi) (lo hi : Int) : P lo hi := by
  induction lo, hi using climb.induct accepts with
  | case1 lo hi h mid haccepted hrefused =>
    have hlo : lo < mid := by omega
    have hhi : mid ≤ hi := by omega
    cases ha : accepts mid with
    | true => exact haccept lo hi mid hlo hhi rfl ha haccepted
    | false => exact hrefuse lo hi mid hlo hhi rfl ha hrefused
  | case2 lo hi h => exact hdone lo hi h

end Steps

section Results

theorem looks_range (h : q ∈ looks accepts lo hi) : lo < q ∧ q ≤ hi := by
  induction lo, hi using induct accepts with
  | hdone lo hi hle =>
    rw [looks_done hle] at h
    cases h
  | haccept lo hi mid hlo hhi hmid ha ih =>
    rw [looks_accept (by omega) hmid ha] at h
    rcases List.mem_cons.mp h with rfl | h
    · exact ⟨hlo, hhi⟩
    · have hrange := ih h
      omega
  | hrefuse lo hi mid hlo hhi hmid ha ih =>
    rw [looks_refuse (by omega) hmid ha] at h
    rcases List.mem_cons.mp h with rfl | h
    · exact ⟨hlo, hhi⟩
    · have hrange := ih h
      omega

-- No point is looked at twice.
theorem looks_nodup (accepts : Int → Bool) (lo hi : Int) : (looks accepts lo hi).Nodup := by
  induction lo, hi using induct accepts with
  | hdone lo hi hle => simp [hle]
  | haccept lo hi mid hlo hhi hmid ha ih =>
    rw [looks_accept (by omega) hmid ha, List.nodup_cons]
    refine ⟨fun hmem => ?_, ih⟩
    have hrange := looks_range hmem
    omega
  | hrefuse lo hi mid hlo hhi hmid ha ih =>
    rw [looks_refuse (by omega) hmid ha, List.nodup_cons]
    refine ⟨fun hmem => ?_, ih⟩
    have hrange := looks_range hmem
    omega

theorem clog_halves {n : Nat} (h : 0 < n) : Nat.clog 2 (n / 2 + 1) + 1 = Nat.clog 2 (n + 1) := by
  rw [Nat.clog_of_two_le (by omega) (by omega : 2 ≤ n + 1)]
  congr 2
  omega

-- Each look halves what is left.
theorem looks_length (accepts : Int → Bool) (lo hi : Int) :
    (looks accepts lo hi).length ≤ Nat.clog 2 ((hi - lo).toNat + 1) := by
  induction lo, hi using induct accepts with
  | hdone lo hi hle => simp [hle]
  | haccept lo hi mid hlo hhi hmid ha ih =>
    rw [looks_accept (by omega) hmid ha, List.length_cons, ← clog_halves (by omega)]
    have hhalf : (hi - mid).toNat + 1 ≤ (hi - lo).toNat / 2 + 1 := by omega
    have hmono := Nat.clog_mono_right 2 hhalf
    omega
  | hrefuse lo hi mid hlo hhi hmid ha ih =>
    rw [looks_refuse (by omega) hmid ha, List.length_cons, ← clog_halves (by omega)]
    have hhalf : (mid - 1 - lo).toNat + 1 ≤ (hi - lo).toNat / 2 + 1 := by omega
    have hmono := Nat.clog_mono_right 2 hhalf
    omega

theorem last_range (accepts : Int → Bool) (h : lo ≤ hi) :
    lo ≤ last accepts lo hi ∧ last accepts lo hi ≤ hi := by
  induction lo, hi using induct accepts with
  | hdone lo hi hle =>
    rw [last_done hle]
    omega
  | haccept lo hi mid hlo hhi hmid ha ih =>
    rw [last_accept (by omega) hmid ha]
    have hrange := ih hhi
    omega
  | hrefuse lo hi mid hlo hhi hmid ha ih =>
    rw [last_refuse (by omega) hmid ha]
    have hrange := ih (by omega)
    omega

theorem last_accepted (accepts : Int → Bool) (lo hi : Int) :
    last accepts lo hi = lo ∨
      last accepts lo hi ∈ looks accepts lo hi ∧ accepts (last accepts lo hi) = true := by
  induction lo, hi using induct accepts with
  | hdone lo hi hle => exact .inl (last_done hle)
  | haccept lo hi mid hlo hhi hmid ha ih =>
    rw [last_accept (by omega) hmid ha, looks_accept (by omega) hmid ha]
    refine .inr ?_
    rcases ih with heq | ⟨hmem, hlast⟩
    · rw [heq]
      exact ⟨List.mem_cons_self, ha⟩
    · exact ⟨List.mem_cons_of_mem _ hmem, hlast⟩
  | hrefuse lo hi mid hlo hhi hmid ha ih =>
    rw [last_refuse (by omega) hmid ha, looks_refuse (by omega) hmid ha]
    exact ih.imp_right fun hlast => ⟨List.mem_cons_of_mem _ hlast.1, hlast.2⟩

-- The bisection stops below the upper end only because the next point was looked at and refused.
theorem next_refused (accepts : Int → Bool) (h : lo ≤ hi) :
    last accepts lo hi = hi ∨
      last accepts lo hi + 1 ∈ looks accepts lo hi ∧ accepts (last accepts lo hi + 1) = false := by
  induction lo, hi using induct accepts with
  | hdone lo hi hle =>
    rw [last_done hle]
    omega
  | haccept lo hi mid hlo hhi hmid ha ih =>
    rw [last_accept (by omega) hmid ha, looks_accept (by omega) hmid ha]
    exact (ih hhi).imp_right fun hnext => ⟨List.mem_cons_of_mem _ hnext.1, hnext.2⟩
  | hrefuse lo hi mid hlo hhi hmid ha ih =>
    rw [last_refuse (by omega) hmid ha, looks_refuse (by omega) hmid ha]
    refine .inr ?_
    rcases ih (by omega) with heq | ⟨hmem, hnext⟩
    · rw [heq, Int.sub_add_cancel]
      exact ⟨List.mem_cons_self, ha⟩
    · exact ⟨List.mem_cons_of_mem _ hmem, hnext⟩

-- Where everything below an accepted point is accepted, the last one is the greatest.
theorem last_greatest (h : lo ≤ hi)
    (hdown : ∀ q q', lo ≤ q → q ≤ q' → q' ≤ hi → accepts q' = true → accepts q = true)
    (hhi : q ≤ hi) (hq : accepts q = true) : q ≤ last accepts lo hi := by
  have hrange := last_range accepts h
  rcases next_refused accepts h with heq | ⟨-, hnext⟩
  · omega
  · by_contra hlt
    have hbelow := hdown (last accepts lo hi + 1) q (by omega) (by omega) hhi hq
    rw [hnext] at hbelow
    cases hbelow

end Results

end Bisection
