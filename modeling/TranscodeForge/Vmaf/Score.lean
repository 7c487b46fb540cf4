import Mathlib.Algebra.BigOperators.Group.List.Basic
import Mathlib.Algebra.Order.Floor.Ring
import Mathlib.Data.List.Infix
import Mathlib.Data.List.Sort
import Mathlib.Data.Rat.Floor
import Mathlib.Tactic.Linarith
import Mathlib.Tactic.Ring
import TranscodeForge.Worker.SourcePath

namespace TranscodeForge.Vmaf

open SourcePath

-- A number as the log's parser reads it, in exact arithmetic.
inductive Score where
  | finite (q : Rat)
  | nan
  | posInf
  | negInf
deriving DecidableEq

namespace Score

def add : Score → Score → Score
  | .finite a, .finite b => .finite (a + b)
  | .nan, _ | _, .nan => .nan
  | .posInf, .negInf | .negInf, .posInf => .nan
  | .posInf, _ | _, .posInf => .posInf
  | .negInf, _ | _, .negInf => .negInf

def sum (scores : List Score) : Score := scores.foldl add (.finite 0)

def divide : Score → Nat → Score
  | .finite a, n => .finite (a / n)
  | x, _ => x

def repr : Score → String
  | .finite q => toString q
  | .nan => "nan"
  | .posInf => "inf"
  | .negInf => "-inf"

def isFinite : Score → Bool
  | .finite _ => true
  | _ => false

-- Nothing is said of a NaN.
def le : Score → Score → Prop
  | .nan, _ | _, .nan => False
  | .negInf, _ | _, .posInf => True
  | .finite a, .finite b => a ≤ b
  | _, _ => False

@[simp] theorem add_finite (a b : Rat) : add (.finite a) (.finite b) = .finite (a + b) := rfl

theorem isFinite_add {x y : Score} (h : (add x y).isFinite = true) :
    x.isFinite = true ∧ y.isFinite = true := by
  cases x <;> cases y <;> simp_all [add, isFinite]

theorem isFinite_foldl {scores : List Score} {x : Score}
    (h : (scores.foldl add x).isFinite = true) :
    x.isFinite = true ∧ ∀ y ∈ scores, y.isFinite = true := by
  induction scores generalizing x with
  | nil => exact ⟨h, by simp⟩
  | cons y ys ih =>
    obtain ⟨hsum, hys⟩ := ih h
    obtain ⟨hx, hy⟩ := isFinite_add hsum
    exact ⟨hx, List.forall_mem_cons.mpr ⟨hy, hys⟩⟩

-- One number that is not finite makes the mean so.
theorem isFinite_mean {scores : List Score} {n : Nat}
    (h : ((sum scores).divide n).isFinite = true) : ∀ x ∈ scores, x.isFinite = true := by
  refine (isFinite_foldl (x := .finite 0) ?_).2
  change (sum scores).isFinite = true
  cases hsum : sum scores <;> simp_all [divide, isFinite]

theorem foldl_finite (qs : List Rat) (a : Rat) :
    (qs.map finite).foldl add (.finite a) = .finite (a + qs.sum) := by
  induction qs generalizing a with
  | nil => simp
  | cons q qs ih => rw [List.map_cons, List.foldl_cons, add_finite, ih, List.sum_cons, add_assoc]

theorem sum_finite (qs : List Rat) : sum (qs.map finite) = .finite qs.sum := by
  rw [sum, foldl_finite, zero_add]

theorem exists_finite {scores : List Score} (h : ∀ x ∈ scores, x.isFinite = true) :
    ∃ qs : List Rat, scores = qs.map finite := by
  induction scores with
  | nil => exact ⟨[], rfl⟩
  | cons x xs ih =>
    obtain ⟨hx, hxs⟩ := List.forall_mem_cons.mp h
    obtain ⟨qs, rfl⟩ := ih hxs
    cases x with
    | finite q => exact ⟨q :: qs, rfl⟩
    | _ => cases hx

end Score

-- What is documented of `sorted`: it reorders, and what can be compared it puts in order.
structure Sorting where
  sorted : List Score → List Score
  perm : ∀ scores, (sorted scores).Perm scores
  ordered : ∀ scores, (∀ x ∈ scores, x ≠ .nan) → (sorted scores).Pairwise Score.le

structure PooledScore extends VmafScore where
  min : Rat
deriving DecidableEq

def checkFinite (name : String) : Score → Except VmafFailure Rat
  | .finite q => .ok q
  | value => .error (.vmafError ("VMAF " ++ name ++ " is not a finite number: " ++ value.repr))

-- `VmafScore` with its `__post_init__`.
def vmafScore (mean perc5 min : Score) : Except VmafFailure PooledScore := do
  let mean ← checkFinite "mean" mean
  let perc5 ← checkFinite "perc5" perc5
  let min ← checkFinite "min" min
  .ok ⟨⟨mean, perc5⟩, min⟩

def perc5Index (n : Nat) : Nat := (max 0 ⌊(5 / 100 : Rat) * ((n : Rat) - 1)⌋).toNat

def mean (qs : List Rat) : Rat := qs.sum / qs.length

-- The nearest rank below one twentieth of the way up.
def percentile5 (qs : List Rat) : Rat :=
  (qs.insertionSort (· ≤ ·)).getD ((qs.length - 1) / 20) 0

theorem perc5Index_eq {n : Nat} (h : 0 < n) : perc5Index n = (n - 1) / 20 := by
  obtain ⟨m, rfl⟩ := Nat.exists_eq_add_of_lt h
  have hrank : (5 / 100 : Rat) * (((0 + m + 1 : Nat) : Rat) - 1) = ((m : Int) : Rat) / (20 : Nat) := by
    push_cast
    ring
  rw [perc5Index, hrank, Rat.floor_intCast_div_natCast]
  omega

section Percentile

variable {floor : Rat} {qs : List Rat}

theorem countP_perm_sorted : qs.countP (· < floor) =
    (qs.insertionSort (· ≤ ·)).countP (· < floor) :=
  ((List.perm_insertionSort _ qs).countP_eq _).symm

-- Nothing at or above a rank that reaches the floor lies below it.
theorem countP_le_rank {os : List Rat} (h : os.Pairwise (· ≤ ·)) {k : Nat} (hk : k < os.length)
    (hfloor : floor ≤ os[k]) : os.countP (· < floor) ≤ k := by
  induction os generalizing k with
  | nil => simp at hk
  | cons q os ih =>
    obtain ⟨hq, hos⟩ := List.pairwise_cons.mp h
    cases k with
    | zero =>
      have hall : ∀ x ∈ q :: os, ¬ x < floor := by
        refine List.forall_mem_cons.mpr ⟨not_lt.mpr hfloor, fun x hx => ?_⟩
        exact not_lt.mpr (le_trans hfloor (hq x hx))
      simpa using hall
    | succ k =>
      have hrest := ih hos (by simpa using hk) hfloor
      have hcons : (q :: os).countP (· < floor) ≤ os.countP (· < floor) + 1 := by
        rw [List.countP_cons]
        split <;> omega
      omega

theorem countP_below (hqs : qs ≠ []) (hfloor : floor ≤ percentile5 qs) :
    20 * qs.countP (· < floor) ≤ qs.length := by
  have hpos : 0 < qs.length := List.length_pos_iff.mpr hqs
  have hrank : (qs.length - 1) / 20 < (qs.insertionSort (· ≤ ·)).length := by
    rw [List.length_insertionSort]
    omega
  rw [percentile5, List.getD_eq_getElem?_getD, List.getElem?_eq_getElem hrank] at hfloor
  have hcount := countP_le_rank (List.pairwise_insertionSort _ qs) hrank hfloor
  rw [countP_perm_sorted]
  omega

end Percentile

def pool (S : Sorting) (scores : List Score) : Except VmafFailure PooledScore :=
  if scores = [] then .error (.vmafError "VMAF log contained no frame scores")
  else
    let ordered := S.sorted scores
    vmafScore ((Score.sum ordered).divide ordered.length)
      (ordered.getD (perc5Index ordered.length) .nan) (ordered.getD 0 .nan)

theorem sorted_finite (S : Sorting) (qs : List Rat) :
    S.sorted (qs.map .finite) = (qs.insertionSort (· ≤ ·)).map .finite := by
  have hperm := S.perm (qs.map .finite)
  have hfinite : ∀ x ∈ S.sorted (qs.map .finite), x.isFinite = true := fun x hx => by
    obtain ⟨q, -, rfl⟩ := List.mem_map.mp (hperm.mem_iff.mp hx)
    rfl
  obtain ⟨os, hos⟩ := Score.exists_finite hfinite
  have hordered := S.ordered (qs.map .finite) fun x hx => by
    obtain ⟨q, -, rfl⟩ := List.mem_map.mp hx
    simp
  rw [hos] at hperm hordered ⊢
  have hsorted : os.Pairwise (· ≤ ·) := (List.pairwise_map (R := Score.le)).mp hordered
  have hsame : os.Perm (qs.insertionSort (· ≤ ·)) :=
    ((List.map_perm_map_iff fun a b h => Score.finite.inj h).mp hperm).trans
      (List.perm_insertionSort _ qs).symm
  rw [hsame.eq_of_pairwise' hsorted (List.pairwise_insertionSort _ qs)]

theorem checkFinite_ok {name : String} {x : Score} {q : Rat} (h : checkFinite name x = .ok q) :
    x = .finite q := by
  cases x <;> simp_all [checkFinite]

theorem vmafScore_finite (a b c : Rat) :
    vmafScore (.finite a) (.finite b) (.finite c) = .ok ⟨⟨a, b⟩, c⟩ := rfl

theorem vmafScore_ok {mean perc5 min : Score} {score : PooledScore}
    (h : vmafScore mean perc5 min = .ok score) : mean = .finite score.mean := by
  unfold vmafScore at h
  cases hmean : checkFinite "mean" mean with
  | error e =>
    rw [hmean] at h
    cases h
  | ok q =>
    cases hperc5 : checkFinite "perc5" perc5 with
    | error e =>
      rw [hmean, hperc5] at h
      cases h
    | ok r =>
      cases hmin : checkFinite "min" min with
      | error e =>
        rw [hmean, hperc5, hmin] at h
        cases h
      | ok m =>
        rw [hmean, hperc5, hmin] at h
        cases h
        exact checkFinite_ok hmean

-- What the gate is there to promise of a log.
def Passing (meanFloor perc5Floor : Rat) (scores : List Score) : Prop :=
  ∃ qs : List Rat, scores = qs.map .finite ∧ qs ≠ [] ∧ meanFloor ≤ mean qs ∧
    perc5Floor ≤ percentile5 qs

theorem pool_finite (S : Sorting) {qs : List Rat} (hqs : qs ≠ []) :
    ∃ min, pool S (qs.map .finite) = .ok ⟨⟨mean qs, percentile5 qs⟩, min⟩ := by
  have hpos : 0 < qs.length := List.length_pos_iff.mpr hqs
  have hrank : (qs.length - 1) / 20 < (qs.insertionSort (· ≤ ·)).length := by
    rw [List.length_insertionSort]
    omega
  have hfirst : 0 < (qs.insertionSort (· ≤ ·)).length := by rwa [List.length_insertionSort]
  have hsum : (qs.insertionSort (· ≤ ·)).sum = qs.sum := (List.perm_insertionSort _ qs).sum_eq
  refine ⟨(qs.insertionSort (· ≤ ·))[0], ?_⟩
  have hscores : qs.map Score.finite ≠ [] := by simpa using hqs
  rw [pool, if_neg hscores, sorted_finite]
  dsimp only
  rw [Score.sum_finite, hsum, List.length_map,
    List.length_insertionSort, perc5Index_eq hpos, List.getD_eq_getElem?_getD, List.getElem?_map,
    List.getElem?_eq_getElem hrank, List.getD_eq_getElem?_getD, List.getElem?_map,
    List.getElem?_eq_getElem hfirst]
  rw [mean, percentile5, List.getD_eq_getElem?_getD, List.getElem?_eq_getElem hrank]
  exact vmafScore_finite ..

-- A log that pools has a frame, and every score in it is finite.
theorem pool_ok {S : Sorting} {scores : List Score} {score : PooledScore}
    (h : pool S scores = .ok score) :
    ∃ qs : List Rat, scores = qs.map .finite ∧ qs ≠ [] ∧
      score.toVmafScore = ⟨mean qs, percentile5 qs⟩ := by
  have hscores : scores ≠ [] := fun hnil => by simp [pool, hnil] at h
  have hfinite : ∀ x ∈ scores, x.isFinite = true := fun x hx => by
    refine Score.isFinite_mean (n := (S.sorted scores).length) ?_ x ((S.perm scores).mem_iff.mpr hx)
    rw [pool, if_neg hscores] at h
    rw [vmafScore_ok h]
    rfl
  obtain ⟨qs, rfl⟩ := Score.exists_finite hfinite
  have hqs : qs ≠ [] := by simpa using hscores
  obtain ⟨min, hpool⟩ := pool_finite S hqs
  rw [hpool] at h
  cases h
  exact ⟨qs, rfl, hqs, rfl⟩

theorem vmafScore_error {mean perc5 min : Score} {e : VmafFailure}
    (h : vmafScore mean perc5 min = .error e) : ∃ message, e = .vmafError message := by
  rcases mean with q | _ | _ | _
  · rcases perc5 with r | _ | _ | _
    · rcases min with m | _ | _ | _
      · cases h
      all_goals exact ⟨_, (Except.error.inj h).symm⟩
    all_goals exact ⟨_, (Except.error.inj h).symm⟩
  all_goals exact ⟨_, (Except.error.inj h).symm⟩

-- A log that does not pool is a failed measurement, never a missing filter.
theorem pool_error {S : Sorting} {scores : List Score} {e : VmafFailure}
    (h : pool S scores = .error e) : ∃ message, e = .vmafError message := by
  unfold pool at h
  split at h
  · cases h
    exact ⟨_, rfl⟩
  · exact vmafScore_error h

theorem passing_of_pool {S : Sorting} {scores : List Score} {meanFloor perc5Floor : Rat}
    {score : PooledScore} (h : pool S scores = .ok score)
    (hgate : ¬ (score.mean < meanFloor ∨ score.perc5 < perc5Floor)) :
    Passing meanFloor perc5Floor scores := by
  obtain ⟨qs, rfl, hqs, hscore⟩ := pool_ok h
  obtain ⟨hmean, hperc5⟩ := not_or.mp hgate
  rw [hscore] at hmean hperc5
  exact ⟨qs, rfl, hqs, not_lt.mp hmean, not_lt.mp hperc5⟩

-- How the measuring ffmpeg ended. The log is what its frames say, or why it cannot be read.
inductive Gauge where
  | timedOut
  | notFound
  | exited (returncode : Int) (stderr : String) (log : Except String (List Score))
deriving DecidableEq

def mentions (text word : String) : Bool := decide (word.toList <:+: text.toList)

def lastChars (n : Nat) (s : String) : String := String.ofList (s.toList.drop (s.length - n))

def measureVmaf (S : Sorting) : Gauge → Except VmafFailure PooledScore
  | .timedOut => .error (.vmafError "VMAF measurement timed out")
  | .notFound => .error .unavailable
  | .exited returncode stderr log =>
    if returncode ≠ 0 then
      if mentions stderr "libvmaf" &&
          (mentions stderr "No such filter" || mentions stderr "Unknown filter") then
        .error .unavailable
      else if mentions stderr "could not load libvmaf model" then .error .unavailable
      else .error (.vmafError (s!"VMAF measurement failed (exit {returncode}): " ++
        lastChars 300 stderr))
    else
      match log with
      | .error message => .error (.vmafError ("Could not parse VMAF log: " ++ message))
      | .ok scores => pool S scores

end TranscodeForge.Vmaf
