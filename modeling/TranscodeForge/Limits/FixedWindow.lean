import Mathlib.Algebra.Order.Ring.Rat
import Mathlib.Tactic.Linarith

-- A limiter of one key that counts what it grants in windows of one length; a window starts with
-- the first call that comes when none is open.
namespace FixedWindow

structure Window where
  started : Rat
  count : Nat
deriving DecidableEq, Repr

variable (period : Rat) (limit : Nat)

def grant (now : Rat) : Option Window → Option Window × Bool
  | none => (some ⟨now, 1⟩, true)
  | some w =>
    if period ≤ now - w.started then (some ⟨now, 1⟩, true)
    else if limit ≤ w.count then (some w, false)
    else (some { w with count := w.count + 1 }, true)

-- The times of the calls that are granted.
def granted : Option Window → List Rat → List Rat
  | _, [] => []
  | w, t :: ts =>
    if (grant period limit t w).2 then t :: granted (grant period limit t w).1 ts
    else granted (grant period limit t w).1 ts

-- No window is open at the time.
def Starts (now : Rat) (w : Option Window) : Prop := ∀ x ∈ w, period ≤ now - x.started

variable {period limit} {now : Rat} {w : Option Window} {times : List Rat}

section Steps

variable {x : Window} {t : Rat}

theorem grant_starts (h : Starts period t w) : grant period limit t w = (some ⟨t, 1⟩, true) := by
  cases w with
  | none => rfl
  | some x => rw [grant, if_pos (h x rfl)]

theorem grant_full (h : t < x.started + period) (hfull : limit ≤ x.count) :
    grant period limit t (some x) = (some x, false) := by
  rw [grant, if_neg (fun hover => by linarith), if_pos hfull]

theorem grant_counts (h : t < x.started + period) (hroom : x.count < limit) :
    grant period limit t (some x) = (some { x with count := x.count + 1 }, true) := by
  rw [grant, if_neg (fun hover => by linarith), if_neg (Nat.not_le_of_lt hroom)]

theorem granted_starts (h : Starts period t w) : granted period limit w (t :: times) =
    t :: granted period limit (some ⟨t, 1⟩) times := by
  rw [granted, grant_starts h, if_pos rfl]

theorem granted_full (h : t < x.started + period) (hfull : limit ≤ x.count) :
    granted period limit (some x) (t :: times) = granted period limit (some x) times := by
  rw [granted, grant_full h hfull, if_neg Bool.false_ne_true]

theorem granted_counts (h : t < x.started + period) (hroom : x.count < limit) :
    granted period limit (some x) (t :: times) =
      t :: granted period limit (some { x with count := x.count + 1 }) times := by
  rw [granted, grant_counts h hroom, if_pos rfl]

theorem starts_some : Starts period t (some x) ↔ x.started + period ≤ t := by
  constructor
  · intro h
    have hover := h x rfl
    linarith
  · intro h y hy
    cases hy
    linarith

end Steps

theorem mem_of_mem_granted {t : Rat} (h : t ∈ granted period limit w times) : t ∈ times := by
  induction times generalizing w with
  | nil => exact h
  | cons t' times ih =>
    rw [granted] at h
    split at h
    · rcases List.mem_cons.mp h with rfl | h
      · exact List.mem_cons_self
      · exact List.mem_cons_of_mem _ (ih h)
    · exact List.mem_cons_of_mem _ (ih h)

def countBefore (stop : Rat) (times : List Rat) : Nat := times.countP fun t => decide (t < stop)

theorem countBefore_eq_zero {stop : Rat} (h : ∀ t ∈ times, stop ≤ t) :
    countBefore stop (granted period limit w times) = 0 := by
  rw [countBefore, List.countP_eq_zero]
  intro t ht
  have hlate := h t (mem_of_mem_granted ht)
  simpa using hlate

theorem countBefore_cons_le (stop t : Rat) (times : List Rat) :
    countBefore stop (t :: times) ≤ countBefore stop times + 1 := by
  rw [countBefore, List.countP_cons, countBefore]
  split <;> omega

theorem countBefore_mono {stop stop' : Rat} (h : stop ≤ stop') (times : List Rat) :
    countBefore stop times ≤ countBefore stop' times := by
  refine List.countP_mono_left fun t _ ht => ?_
  have hbefore : t < stop := by simpa using ht
  simpa using hbefore.trans_le h

-- What an open window still grants.
theorem countBefore_window {x : Window} (hsorted : times.Pairwise (· ≤ ·)) (hcount : x.count ≤ limit) :
    countBefore (x.started + period) (granted period limit (some x) times) ≤ limit - x.count := by
  induction times generalizing x with
  | nil => simp [granted, countBefore]
  | cons t times ih =>
    obtain ⟨hfirst, hrest⟩ := List.pairwise_cons.mp hsorted
    rcases lt_or_ge t (x.started + period) with hopen | hover
    · rcases Nat.lt_or_ge x.count limit with hroom | hfull
      · have hnext : countBefore (x.started + period)
            (granted period limit (some { x with count := x.count + 1 }) times) ≤
            limit - (x.count + 1) := ih (x := { x with count := x.count + 1 }) hrest hroom
        rw [granted_counts hopen hroom]
        have hone := countBefore_cons_le (x.started + period) t
          (granted period limit (some { x with count := x.count + 1 }) times)
        omega
      · rw [granted_full hopen hfull]
        exact ih hrest hcount
    · have hlate : ∀ t' ∈ t :: times, x.started + period ≤ t' := by
        intro t' ht'
        rcases List.mem_cons.mp ht' with rfl | ht'
        · exact hover
        · exact hover.trans (hfirst t' ht')
      rw [countBefore_eq_zero hlate]
      exact Nat.zero_le _

-- A window that starts grants the call that starts it, and then `limit - 1` more.
theorem countBefore_started {t : Rat} (hlimit : 1 ≤ limit) (hsorted : times.Pairwise (· ≤ ·))
    (h : Starts period t w) :
    countBefore (t + period) (granted period limit w (t :: times)) ≤ limit := by
  rw [granted_starts h]
  have hrest : countBefore (t + period) (granted period limit (some ⟨t, 1⟩) times) ≤ limit - 1 :=
    countBefore_window (x := ⟨t, 1⟩) hsorted hlimit
  have hone := countBefore_cons_le (t + period) t (granted period limit (some ⟨t, 1⟩) times)
  omega

-- What is left of an open window, and the whole of the next one.
theorem countBefore_two {x : Window} (hlimit : 1 ≤ limit) (hsorted : times.Pairwise (· ≤ ·))
    (hcount : x.count ≤ limit) :
    countBefore (x.started + period + period) (granted period limit (some x) times) ≤
      (limit - x.count) + limit := by
  induction times generalizing x with
  | nil => simp [granted, countBefore]
  | cons t times ih =>
    obtain ⟨-, hrest⟩ := List.pairwise_cons.mp hsorted
    rcases lt_or_ge t (x.started + period) with hopen | hover
    · rcases Nat.lt_or_ge x.count limit with hroom | hfull
      · have hnext : countBefore (x.started + period + period)
            (granted period limit (some { x with count := x.count + 1 }) times) ≤
            (limit - (x.count + 1)) + limit := ih (x := { x with count := x.count + 1 }) hrest hroom
        rw [granted_counts hopen hroom]
        have hone := countBefore_cons_le (x.started + period + period) t
          (granted period limit (some { x with count := x.count + 1 }) times)
        omega
      · rw [granted_full hopen hfull]
        exact ih hrest hcount
    · have hstarted : countBefore (t + period) (granted period limit (some x) (t :: times)) ≤ limit :=
        countBefore_started hlimit hrest (starts_some.mpr hover)
      have hearlier := countBefore_mono (by linarith : x.started + period + period ≤ t + period)
        (granted period limit (some x) (t :: times))
      omega

def countBetween (first last : Rat) (times : List Rat) : Nat :=
  times.countP fun t => decide (first ≤ t ∧ t ≤ last)

theorem countBetween_le_countBefore {f last stop : Rat} (h : last < stop) (times : List Rat) :
    countBetween f last times ≤ countBefore stop times := by
  refine List.countP_mono_left fun t _ ht => ?_
  have hbetween : f ≤ t ∧ t ≤ last := by simpa using ht
  simpa using hbetween.2.trans_lt h

theorem grant_count {t : Rat} (hlimit : 1 ≤ limit) (hcount : ∀ x ∈ w, x.count ≤ limit) :
    ∀ x ∈ (grant period limit t w).1, x.count ≤ limit := by
  intro y hy
  cases w with
  | none =>
    cases hy
    exact hlimit
  | some x =>
    have hx := hcount x rfl
    rw [grant] at hy
    split at hy
    · cases hy
      exact hlimit
    · split at hy
      · cases hy
        exact hx
      · next hroom =>
        cases hy
        exact Nat.lt_of_not_le hroom

theorem countBetween_skip {first last t : Rat} (h : t < first) : countBetween first last
    (granted period limit w (t :: times)) =
      countBetween first last (granted period limit (grant period limit t w).1 times) := by
  rw [granted]
  split
  · have hskip : ¬ (first ≤ t ∧ t ≤ last) := fun hbetween => absurd hbetween.1 (not_le_of_gt h)
    rw [countBetween, List.countP_cons_of_neg (by simpa using hskip), countBetween]
  · rfl

-- A closed interval of the window's length meets two windows at most.
theorem countBetween_le {first : Rat} (hlimit : 1 ≤ limit) (hperiod : 0 < period)
    (hsorted : times.Pairwise (· ≤ ·)) (hcount : ∀ x ∈ w, x.count ≤ limit) :
    countBetween first (first + period) (granted period limit w times) ≤ 2 * limit := by
  induction times generalizing w with
  | nil => simp [granted, countBetween]
  | cons t times ih =>
    have hrest := (List.pairwise_cons.mp hsorted).2
    rcases lt_or_ge t first with hbefore | hwithin
    · rw [countBetween_skip hbefore]
      exact ih hrest (grant_count hlimit hcount)
    · by_cases hstarts : Starts period t w
      · have hstop : first + period < t + period + period := by linarith
        have htwo : countBefore (t + period + period) (granted period limit (some ⟨t, 1⟩) times) ≤
            (limit - 1) + limit := countBefore_two (x := ⟨t, 1⟩) hlimit hrest hlimit
        have hbefore := countBetween_le_countBefore (f := first) hstop
          (granted period limit w (t :: times))
        rw [granted_starts hstarts] at hbefore ⊢
        have hone := countBefore_cons_le (t + period + period) t
          (granted period limit (some ⟨t, 1⟩) times)
        omega
      · cases w with
        | none => exact (hstarts (by simp [Starts])).elim
        | some x =>
          have hopen : t < x.started + period := not_le.mp (mt starts_some.mpr hstarts)
          have hstop : first + period < x.started + period + period := by linarith
          have htwo : countBefore (x.started + period + period) (granted period limit (some x) (t :: times)) ≤
              (limit - x.count) + limit := countBefore_two hlimit hsorted (hcount x rfl)
          have hbefore := countBetween_le_countBefore (f := first) hstop
            (granted period limit (some x) (t :: times))
          omega

end FixedWindow
