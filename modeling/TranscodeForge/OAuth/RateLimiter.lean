import TranscodeForge.Limits.FixedWindow
import TranscodeForge.Relational.Table
import Mathlib.Data.Rat.Floor

namespace TranscodeForge.RateLimiter

open Relational

def rateWindowSeconds : Rat := 60

structure Window (κ : Type) where
  key : κ
  started : Rat
  count : Nat
deriving DecidableEq

abbrev Windows (κ : Type) := Table κ (Window κ) Window.key

structure Call (κ : Type) where
  time : Rat
  key : κ
deriving DecidableEq

theorem head_le {κ : Type} {c : Call κ} {calls : List (Call κ)}
    (hsorted : (c :: calls).Pairwise fun c c' => c.time ≤ c'.time) :
    ∀ d ∈ c :: calls, c.time ≤ d.time := by
  intro d hd
  rcases List.mem_cons.mp hd with rfl | hd
  · exact le_refl _
  · exact (List.pairwise_cons.mp hsorted).1 d hd

theorem exists_before {κ : Type} {calls : List (Call κ)}
    (hsorted : calls.Pairwise fun c c' => c.time ≤ c'.time) : ∃ now, ∀ c ∈ calls, now ≤ c.time := by
  cases calls with
  | nil => exact ⟨0, fun c hc => absurd hc List.not_mem_nil⟩
  | cons c calls => exact ⟨c.time, head_le hsorted⟩

variable {κ : Type} [DecidableEq κ]

-- `int`.
def truncated (x : Rat) : Int := if x < 0 then x.ceil else x.floor

def expired (now : Rat) (w : Window κ) : Bool := decide (rateWindowSeconds ≤ now - w.started)

def prune (now : Rat) (windows : Windows κ) : Windows κ :=
  if 1024 < windows.rows.length then windows.delete (expired now) else windows

def keepAll (_ : Rat) (windows : Windows κ) : Windows κ := windows

def opened (now : Rat) (key : κ) (windows : Windows κ) : Windows κ :=
  windows.upsert ⟨key, now, 1⟩ (fun w => { w with started := now, count := 1 }) fun _ => rfl

def counted (key : κ) (windows : Windows κ) : Windows κ :=
  windows.update (fun w => w.key == key) (fun w => { w with count := w.count + 1 }) fun _ => rfl

-- The answer is the seconds to wait, 0 when the call is allowed.
def allow (prune : Rat → Windows κ → Windows κ) (limit : Nat) (c : Call κ) (windows : Windows κ) :
    Windows κ × Int :=
  match windows.get? c.key with
  | none => (prune c.time (opened c.time c.key windows), 0)
  | some w =>
    if rateWindowSeconds ≤ c.time - w.started then
      (prune c.time (opened c.time c.key windows), 0)
    else if limit ≤ w.count then
      (windows, max 1 (truncated (rateWindowSeconds - (c.time - w.started)) + 1))
    else (counted c.key windows, 0)

def after (prune : Rat → Windows κ → Windows κ) (limit : Nat) (windows : Windows κ)
    (calls : List (Call κ)) : Windows κ :=
  calls.foldl (fun windows c => (allow prune limit c windows).1) windows

def answers (prune : Rat → Windows κ → Windows κ) (limit : Nat) :
    Windows κ → List (Call κ) → List Int
  | _, [] => []
  | windows, c :: calls =>
    (allow prune limit c windows).2 :: answers prune limit (allow prune limit c windows).1 calls

section Effects

variable {now : Rat} {key : κ} {windows : Windows κ} {limit : Nat} {c : Call κ}
  {prune : Rat → Windows κ → Windows κ}

def Opens (c : Call κ) (windows : Windows κ) : Prop :=
  ∀ w, windows.get? c.key = some w → rateWindowSeconds ≤ c.time - w.started

theorem get?_opened (key' : κ) : (opened now key windows).get? key' =
    if key = key' then some ⟨key, now, 1⟩ else windows.get? key' := by
  rw [opened, Table.get?_upsert]
  split
  · next hsame =>
    have hkey' : key = key' := hsame
    cases hrow : windows.get? key' with
    | none => rfl
    | some w =>
      have hkey : w.key = key' := Table.get?_key hrow
      simp [hkey', hkey]
  · rfl

theorem get?_counted (key' : κ) : (counted key windows).get? key' =
    (windows.get? key').map fun w => if w.key == key then { w with count := w.count + 1 } else w :=
  Table.get?_update ..

theorem allow_opens (h : Opens c windows) :
    allow prune limit c windows = (prune c.time (opened c.time c.key windows), 0) := by
  unfold allow
  split
  · rfl
  · next w hrow => rw [if_pos (h w hrow)]

theorem opens_or (c : Call κ) (windows : Windows κ) : Opens c windows ∨
    ∃ w, windows.get? c.key = some w ∧ c.time - w.started < rateWindowSeconds := by
  by_cases h : Opens c windows
  · exact .inl h
  · simp only [Opens, not_forall, not_le] at h
    obtain ⟨w, hrow, hopen⟩ := h
    exact .inr ⟨w, hrow, hopen⟩

theorem allow_open {w : Window κ} (hrow : windows.get? c.key = some w)
    (hopen : c.time - w.started < rateWindowSeconds) : allow prune limit c windows =
      if limit ≤ w.count then
        (windows, max 1 (truncated (rateWindowSeconds - (c.time - w.started)) + 1))
      else (counted c.key windows, 0) := by
  unfold allow
  rw [hrow]
  exact if_neg (not_le_of_gt hopen)

-- The wait of a call that is refused runs past the end of its window.
theorem lt_wait {x : Rat} (h : 0 < x) : x < ((max 1 (truncated x + 1) : Int) : Rat) := by
  have hfloor : truncated x = x.floor := if_neg (not_lt_of_gt h)
  have hlt : x < ((x.floor + 1 : Int) : Rat) := Rat.lt_floor_add_one x
  rw [hfloor]
  exact hlt.trans_le (Int.cast_le.mpr (le_max_right _ _))

end Effects

section Pruning

variable {now now' : Rat} {windows kept : Windows κ} {limit : Nat} {c : Call κ}

-- The windows that are pruned are over, and stay so.
def Beside (now : Rat) (windows kept : Windows κ) : Prop :=
  ∀ key, windows.get? key = kept.get? key ∨
    windows.get? key = none ∧ ∃ w, kept.get? key = some w ∧ rateWindowSeconds ≤ now - w.started

theorem beside_mono (h : Beside now windows kept) (hle : now ≤ now') : Beside now' windows kept := by
  intro key
  rcases h key with hsame | ⟨hgone, w, hrow, hover⟩
  · exact .inl hsame
  · exact .inr ⟨hgone, w, hrow, by linarith⟩

theorem beside_prune (h : Beside now windows kept) : Beside now (prune now windows) kept := by
  unfold prune
  split
  · intro key
    rw [Table.get?_delete]
    rcases h key with hsame | ⟨hgone, hover⟩
    · cases hrow : windows.get? key with
      | none =>
        rw [hrow] at hsame
        exact .inl hsame
      | some w =>
        by_cases hexpired : expired now w = true
        · refine .inr ⟨by simp [hexpired], w, hsame ▸ hrow, of_decide_eq_true hexpired⟩
        · refine .inl ?_
          rw [← hsame, hrow]
          simp [hexpired]
    · exact .inr ⟨by rw [hgone]; rfl, hover⟩
  · exact h

theorem beside_opened (h : Beside now windows kept) (key : κ) :
    Beside now (opened now key windows) (opened now key kept) := by
  intro key'
  rw [get?_opened, get?_opened]
  split
  · exact .inl rfl
  · exact h key'

theorem beside_counted (h : Beside now windows kept) (key : κ) (hsame : windows.get? key = kept.get? key) :
    Beside now (counted key windows) (counted key kept) := by
  intro key'
  rw [get?_counted, get?_counted]
  by_cases hkey : key' = key
  · subst hkey
    exact .inl (by rw [hsame])
  · rcases h key' with hsame' | ⟨hgone, w, hrow, hover⟩
    · exact .inl (by rw [hsame'])
    · have hother : ¬ (w.key == key) = true := by
        rw [Table.get?_key hrow, beq_iff_eq]
        exact hkey
      refine .inr ⟨by rw [hgone]; rfl, w, ?_, hover⟩
      rw [hrow, Option.map_some, if_neg hother]

theorem opens_iff (h : Beside c.time windows kept) : Opens c windows ↔ Opens c kept := by
  unfold Opens
  rcases h c.key with hsame | ⟨hgone, w, hrow, hover⟩
  · rw [hsame]
  · rw [hgone, hrow]
    simpa using hover

theorem allow_beside (limit : Nat) (h : Beside c.time windows kept) :
    (allow prune limit c windows).2 = (allow keepAll limit c kept).2 ∧
      Beside c.time (allow prune limit c windows).1 (allow keepAll limit c kept).1 := by
  rcases opens_or c windows with hopens | ⟨w, hrow, hopen⟩
  · rw [allow_opens hopens, allow_opens ((opens_iff h).mp hopens)]
    exact ⟨rfl, beside_prune (beside_opened h c.key)⟩
  · have hsame : windows.get? c.key = kept.get? c.key := by
      rcases h c.key with hsame | ⟨hgone, -⟩
      · exact hsame
      · rw [hgone] at hrow
        cases hrow
    rw [allow_open hrow hopen, allow_open (hsame ▸ hrow) hopen]
    split
    · exact ⟨rfl, h⟩
    · exact ⟨rfl, beside_counted h c.key hsame⟩

theorem answers_beside {calls : List (Call κ)} (h : Beside now windows kept)
    (hnow : ∀ c ∈ calls, now ≤ c.time) (hsorted : calls.Pairwise fun c c' => c.time ≤ c'.time) :
    answers prune limit windows calls = answers keepAll limit kept calls := by
  induction calls generalizing now windows kept with
  | nil => rfl
  | cons c calls ih =>
    obtain ⟨hlater, hrest⟩ := List.pairwise_cons.mp hsorted
    have hstep := allow_beside limit (beside_mono h (hnow c List.mem_cons_self))
    rw [answers, answers, hstep.1, ih hstep.2 hlater hrest]

theorem beside_after {calls : List (Call κ)} (h : Beside now windows kept)
    (hnow : ∀ c ∈ calls, now ≤ c.time) (hsorted : calls.Pairwise fun c c' => c.time ≤ c'.time)
    (hlast : ∀ c ∈ calls, c.time ≤ now') (hle : now ≤ now') :
    Beside now' (after prune limit windows calls) (after keepAll limit kept calls) := by
  induction calls generalizing now windows kept with
  | nil => exact beside_mono h hle
  | cons c calls ih =>
    obtain ⟨hlater, hrest⟩ := List.pairwise_cons.mp hsorted
    have hstep := allow_beside limit (beside_mono h (hnow c List.mem_cons_self))
    exact ih hstep.2 hlater hrest (fun d hd => hlast d (List.mem_cons_of_mem _ hd))
      (hlast c List.mem_cons_self)

theorem beside_empty : Beside now (.empty : Windows κ) .empty := fun _ => .inl rfl

-- From the empty limiter, up to the time of the next call.
theorem beside_before (limit : Nat) {pre post : List (Call κ)} {c : Call κ}
    (hsorted : (pre ++ c :: post).Pairwise fun c c' => c.time ≤ c'.time) :
    Beside c.time (after prune limit .empty pre) (after keepAll limit .empty pre) := by
  obtain ⟨hpre, -, hcross⟩ := List.pairwise_append.mp hsorted
  have hlast : ∀ d ∈ pre, d.time ≤ c.time := fun d hd => hcross d hd c List.mem_cons_self
  cases pre with
  | nil => exact beside_empty
  | cons d pre =>
    exact beside_after beside_empty (head_le hpre) hpre hlast (hlast d List.mem_cons_self)

end Pruning

section Slots

variable {windows : Windows κ} {limit : Nat} {now : Rat} {key : κ} {c : Call κ}

def slot (windows : Windows κ) (key : κ) : Option FixedWindow.Window :=
  (windows.get? key).map fun w => ⟨w.started, w.count⟩

theorem slot_opened (key' : κ) : slot (opened now key windows) key' =
    if key = key' then some ⟨now, 1⟩ else slot windows key' := by
  rw [slot, get?_opened]
  split <;> rfl

theorem slot_counted (key' : κ) : slot (counted key windows) key' =
    if key = key' then (slot windows key').map fun w => { w with count := w.count + 1 }
    else slot windows key' := by
  rw [slot, get?_counted, slot]
  cases hrow : windows.get? key' with
  | none => simp
  | some w =>
    have hkey : w.key = key' := Table.get?_key hrow
    subst hkey
    rw [Option.map_some]
    by_cases hsame : key = w.key
    · rw [if_pos hsame, if_pos (beq_iff_eq.mpr hsame.symm)]
      rfl
    · rw [if_neg hsame, if_neg (mt beq_iff_eq.mp (Ne.symm hsame))]

theorem opens_iff_starts :
    Opens c windows ↔ FixedWindow.Starts rateWindowSeconds c.time (slot windows c.key) := by
  unfold Opens FixedWindow.Starts slot
  simp

-- A limiter that keeps every window is a fixed window for each key.
theorem allow_slot (limit : Nat) (c : Call κ) (windows : Windows κ) :
    ((allow keepAll limit c windows).2 = 0 ↔
      (FixedWindow.grant rateWindowSeconds limit c.time (slot windows c.key)).2 = true) ∧
    ∀ key, slot (allow keepAll limit c windows).1 key =
      if c.key = key then (FixedWindow.grant rateWindowSeconds limit c.time (slot windows key)).1
      else slot windows key := by
  rcases opens_or c windows with hopens | ⟨w, hrow, hopen⟩
  · have hstarts : FixedWindow.grant rateWindowSeconds limit c.time (slot windows c.key) =
        (some ⟨c.time, 1⟩, true) := FixedWindow.grant_starts (opens_iff_starts.mp hopens)
    rw [allow_opens hopens, hstarts]
    refine ⟨by simp, fun key => ?_⟩
    rw [keepAll, slot_opened]
    split
    · next hkey =>
      subst hkey
      rw [hstarts]
    · rfl
  · have hslot : slot windows c.key = some ⟨w.started, w.count⟩ := by rw [slot, hrow]; rfl
    have hopen' : c.time < w.started + rateWindowSeconds := by linarith
    rw [allow_open hrow hopen, hslot]
    split
    · next hfull =>
      have hgrant := FixedWindow.grant_full (x := ⟨w.started, w.count⟩) hopen' hfull
      rw [hgrant]
      refine ⟨?_, fun key => ?_⟩
      · have hwait : (max 1 (truncated (rateWindowSeconds - (c.time - w.started)) + 1)) ≠ 0 := by omega
        simpa using hwait
      · split
        · next hkey =>
          subst hkey
          rw [hslot, hgrant]
        · rfl
    · next hroom =>
      have hgrant := FixedWindow.grant_counts (x := ⟨w.started, w.count⟩) hopen' (Nat.lt_of_not_le hroom)
      rw [hgrant]
      refine ⟨by simp, fun key => ?_⟩
      rw [slot_counted]
      split
      · next hkey =>
        subst hkey
        rw [hslot, hgrant]
        rfl
      · rfl

-- The times at which calls of the key are allowed.
def allowed (prune : Rat → Windows κ → Windows κ) (limit : Nat) (windows : Windows κ)
    (calls : List (Call κ)) (key : κ) : List Rat :=
  ((calls.zip (answers prune limit windows calls)).filter fun a =>
    decide (a.1.key = key ∧ a.2 = 0)).map fun a => a.1.time

def timesOf (calls : List (Call κ)) (key : κ) : List Rat :=
  (calls.filter fun c => decide (c.key = key)).map Call.time

theorem allowed_eq_granted (calls : List (Call κ)) (windows : Windows κ) :
    allowed keepAll limit windows calls key =
      FixedWindow.granted rateWindowSeconds limit (slot windows key) (timesOf calls key) := by
  induction calls generalizing windows with
  | nil => rfl
  | cons c calls ih =>
    obtain ⟨hanswer, hslot⟩ := allow_slot limit c windows
    have hrest := ih (allow keepAll limit c windows).1
    rw [hslot key] at hrest
    by_cases hkey : c.key = key
    · subst hkey
      rw [if_pos rfl] at hrest
      have htimes : timesOf (c :: calls) c.key = c.time :: timesOf calls c.key := by simp [timesOf]
      rw [htimes, FixedWindow.granted, ← hrest]
      by_cases hgrant : (allow keepAll limit c windows).2 = 0
      · rw [if_pos (hanswer.mp hgrant)]
        simp [allowed, answers, hgrant]
      · rw [if_neg (mt hanswer.mpr hgrant)]
        simp [allowed, answers, hgrant]
    · rw [if_neg hkey] at hrest
      have htimes : timesOf (c :: calls) key = timesOf calls key := by simp [timesOf, hkey]
      rw [htimes, ← hrest]
      simp [allowed, answers, hkey]

theorem sorted_timesOf {calls : List (Call κ)} (h : calls.Pairwise fun c c' => c.time ≤ c'.time)
    (key : κ) : (timesOf calls key).Pairwise (· ≤ ·) :=
  (h.filter _).map _ fun _ _ hle => hle

theorem slot_after_other {calls : List (Call κ)} (h : ∀ c ∈ calls, c.key ≠ key) :
    slot (after keepAll limit windows calls) key = slot windows key := by
  induction calls generalizing windows with
  | nil => rfl
  | cons c calls ih =>
    have hother : ¬ c.key = key := h c List.mem_cons_self
    have hrest : slot (after keepAll limit (allow keepAll limit c windows).1 calls) key =
        slot (allow keepAll limit c windows).1 key := ih fun d hd => h d (List.mem_cons_of_mem _ hd)
    rw [(allow_slot limit c windows).2 key, if_neg hother] at hrest
    exact hrest

end Slots

theorem after_append (prune : Rat → Windows κ → Windows κ) (limit : Nat) (windows : Windows κ)
    (calls calls' : List (Call κ)) : after prune limit windows (calls ++ calls') =
      after prune limit (after prune limit windows calls) calls' := List.foldl_append

section Refused

variable {windows : Windows κ} {limit : Nat} {c c' : Call κ} {mid : List (Call κ)}

-- A call that is refused leaves its window, which is over after the wait.
theorem allow_refused (h : (allow keepAll limit c windows).2 ≠ 0) :
    ∃ w, slot windows c.key = some w ∧ (allow keepAll limit c windows).1 = windows ∧
      w.started + rateWindowSeconds < c.time + ((allow keepAll limit c windows).2 : Rat) := by
  rcases opens_or c windows with hopens | ⟨w, hrow, hopen⟩
  · rw [allow_opens hopens] at h
    exact absurd rfl h
  · rw [allow_open hrow hopen] at h ⊢
    split at h
    · next hfull =>
      rw [if_pos hfull]
      have hleft : 0 < rateWindowSeconds - (c.time - w.started) := sub_pos.mpr hopen
      have hwait := lt_wait hleft
      refine ⟨⟨w.started, w.count⟩, by rw [slot, hrow]; rfl, rfl, ?_⟩
      change w.started + rateWindowSeconds < _
      linarith
    · exact absurd rfl h

theorem allow_after_wait (h : (allow keepAll limit c windows).2 ≠ 0) (hkey : c'.key = c.key)
    (hmid : ∀ d ∈ mid, d.key ≠ c.key)
    (hwait : c.time + ((allow keepAll limit c windows).2 : Rat) ≤ c'.time) :
    (allow keepAll limit c' (after keepAll limit windows (c :: mid))).2 = 0 := by
  obtain ⟨w, hslot, hstays, hover⟩ := allow_refused h
  have hslot' : slot (after keepAll limit windows (c :: mid)) c'.key = some w := by
    rw [hkey, after, List.foldl_cons, hstays, ← hslot]
    exact slot_after_other hmid
  have hopens : Opens c' (after keepAll limit windows (c :: mid)) := by
    rw [opens_iff_starts, hslot', FixedWindow.starts_some]
    linarith
  rw [allow_opens hopens]

end Refused

theorem allowed_prune {limit : Nat} {now : Rat} {windows kept : Windows κ} {calls : List (Call κ)}
    (h : Beside now windows kept) (hnow : ∀ c ∈ calls, now ≤ c.time)
    (hsorted : calls.Pairwise fun c c' => c.time ≤ c'.time) (key : κ) :
    allowed prune limit windows calls key =
      FixedWindow.granted rateWindowSeconds limit (slot kept key) (timesOf calls key) := by
  rw [← allowed_eq_granted, allowed, answers_beside h hnow hsorted, allowed]

theorem allow_exact (limit : Nat) (hlimit : 1 ≤ limit) (calls : List (Call κ))
    (hsorted : calls.Pairwise fun c c' => c.time ≤ c'.time) :
    answers prune limit .empty calls = answers keepAll limit .empty calls ∧
    (∀ pre c post, calls = pre ++ c :: post → Opens c (after prune limit .empty pre) →
      FixedWindow.countBefore (c.time + rateWindowSeconds)
        (allowed prune limit (after prune limit .empty pre) (c :: post) c.key) ≤ limit) ∧
    (∀ key start, FixedWindow.countBetween start (start + rateWindowSeconds)
      (allowed prune limit .empty calls key) ≤ 2 * limit) ∧
    ∀ pre c mid c' post wait, calls = pre ++ c :: (mid ++ c' :: post) → c'.key = c.key →
      (∀ d ∈ mid, d.key ≠ c.key) → (allow prune limit c (after prune limit .empty pre)).2 = wait →
      wait ≠ 0 → c.time + (wait : Rat) ≤ c'.time →
      (allow prune limit c' (after prune limit .empty (pre ++ c :: mid))).2 = 0 := by
  obtain ⟨now, hnow⟩ := exists_before hsorted
  refine ⟨answers_beside beside_empty hnow hsorted, ?_, ?_, ?_⟩
  · intro pre c post hcalls hopens
    subst hcalls
    have hbeside := beside_before limit hsorted
    have hpost : (c :: post).Pairwise fun c c' => c.time ≤ c'.time :=
      (List.pairwise_append.mp hsorted).2.1
    have hstarts := opens_iff_starts.mp ((opens_iff hbeside).mp hopens)
    rw [allowed_prune hbeside (head_le hpost) hpost]
    have htimes : timesOf (c :: post) c.key = c.time :: timesOf post c.key := by simp [timesOf]
    rw [htimes]
    exact FixedWindow.countBefore_started hlimit
      (sorted_timesOf (List.pairwise_cons.mp hpost).2 c.key) hstarts
  · intro key start
    rw [allowed_prune beside_empty hnow hsorted]
    refine FixedWindow.countBetween_le hlimit (by decide) (sorted_timesOf hsorted key) ?_
    intro w hw
    cases hw
  · intro pre c mid c' post wait hcalls hkey hmid hanswer hwait hlate
    subst hcalls hanswer
    have hbefore := beside_before limit hsorted
    have hsorted' : ((pre ++ c :: mid) ++ c' :: post).Pairwise fun c c' => c.time ≤ c'.time := by
      simpa using hsorted
    have hbefore' := beside_before limit hsorted'
    rw [(allow_beside limit hbefore).1] at hwait hlate
    rw [(allow_beside limit hbefore').1, after_append]
    exact allow_after_wait hwait hkey hmid hlate

theorem allow_exact_refused : answers prune 1 .empty [⟨0, 7⟩, ⟨30, 7⟩, ⟨61, 7⟩] =
      answers keepAll 1 .empty [⟨0, 7⟩, ⟨30, 7⟩, ⟨61, 7⟩] ∧
    (allow prune 1 ⟨61, 7⟩ (after prune 1 .empty [⟨0, 7⟩, ⟨30, 7⟩])).2 = 0 := by
  have hexact := allow_exact 1 (le_refl 1) [⟨0, 7⟩, ⟨30, 7⟩, ⟨61, 7⟩] (by decide)
  refine ⟨hexact.1, hexact.2.2.2 [⟨0, 7⟩] ⟨30, 7⟩ [] ⟨61, 7⟩ [] 31 rfl rfl ?_ ?_ ?_ ?_⟩
  · simp
  · decide +kernel
  · decide
  · norm_num

end TranscodeForge.RateLimiter
