import Mathlib.Algebra.BigOperators.Group.List.Basic
import Mathlib.Algebra.Order.Ring.Rat
import TranscodeForge.Interaction.Oracle
import TranscodeForge.Search.Bisection
import TranscodeForge.Worker.SourcePath

namespace TranscodeForge.Vmaf

open Interaction SourcePath

def sampleSeconds : Rat := 20

def sampleOffsets : List Rat := [15 / 100, 50 / 100, 85 / 100]

def searchRange : Int × Int := (16, 30)

-- What a search asks of the machine. A sample is named by its number.
inductive SearchOp where
  | extractSample (sample : Nat) (offset : Rat) (primaryIndex : Option Nat)
  | onProbe (done total : Nat)
  | sampleEncode (codec backend : String) (sample : Nat) (quality : Int)
      (targetHeight : Option Nat)
  | sampleScore (sample : Nat) (quality : Int) (height targetHeight : Option Nat)
deriving DecidableEq

-- The error message of a sample that could not be cut, and what a callback has raised.
abbrev SearchOp.Answer : SearchOp → Type
  | .extractSample _ _ _ | .onProbe _ _ => Option String
  | .sampleEncode _ _ _ _ _ => Except String EncodeResult
  | .sampleScore _ _ _ _ => Except VmafFailure VmafScore

abbrev Searching := Program SearchOp SearchOp.Answer VmafFailure

structure QualitySearch extends SearchRequest where
  duration : Rat
  reportsProbes : Bool
deriving DecidableEq

section Model

variable (request : QualitySearch)

def offsets (duration : Rat) : List Rat :=
  if duration ≤ sampleSeconds * 2 then [0] else sampleOffsets.map (duration * ·)

def extractEach : Nat → List Rat → Searching (List Nat)
  | _, [] => .ret []
  | sample, offset :: rest =>
    .call (.extractSample sample offset request.primaryIndex) fun
      | some message => .raise (.vmafError message)
      | none => (extractEach (sample + 1) rest).bind fun samples => .ret (sample :: samples)

def extractSamples : Searching (List Nat) := extractEach request 0 (offsets request.duration)

def sampleEncode (quality : Int) (sample : Nat) : Searching Unit :=
  .call (.sampleEncode request.codec request.backend sample quality request.targetHeight) fun
    | .error message => .raise (.other message)
    | .ok encoded =>
      if encoded.success then .ret ()
      else .raise (.vmafError (s!"Sample encode failed at q={quality}: " ++
        encoded.errorMessage.getD "None"))

def sampleScore (quality : Int) (sample : Nat) : Searching VmafScore :=
  .call (.sampleScore sample quality request.height request.targetHeight) .ofExcept

def evaluateEach (quality : Int) : List Nat → Searching (List VmafScore)
  | [] => .ret []
  | sample :: rest => do
    sampleEncode request quality sample
    let score ← sampleScore request quality sample
    let scores ← evaluateEach quality rest
    .ret (score :: scores)

def worst : List Rat → Option Rat
  | [] => none
  | x :: xs => some (xs.foldl min x)

-- The mean of the means and the worst of the worst scenes.
def evaluateQuality (samples : List Nat) (quality : Int) : Searching (Rat × Rat) := do
  let scores ← evaluateEach request quality samples
  match worst (scores.map VmafScore.perc5) with
  | none => .raise (.other "division by zero")
  | some perc5 => .ret ((scores.map VmafScore.mean).sum / scores.length, perc5)

def passes (score : Rat × Rat) : Bool :=
  decide (request.targetVmaf ≤ score.1) && decide (request.perc5Floor ≤ score.2)

def expectedProbes (lo hi : Int) : Nat :=
  1 + if lo < hi then max 1 (Nat.clog 2 (hi - lo).toNat) else 0

def reportProbe (done expected : Nat) : Searching Unit :=
  if request.reportsProbes then
    .call (.onProbe (min done expected) expected) fun
      | some message => .raise (.other message)
      | none => .ret ()
  else .ret ()

def meets (samples : List Nat) (expected done : Nat) (quality : Int) : Searching (Rat × Rat) :=
  (reportProbe request done expected).bind fun _ => evaluateQuality request samples quality

def searchLoop (samples : List Nat) (expected : Nat) (lo hi : Int) (best : QualitySearchResult)
    (done : Nat) : Searching QualitySearchResult :=
  if lo < hi then
    let mid := (lo + hi + 1) / 2
    (meets request samples expected (done + 1) mid).bind fun score =>
      if passes request score then
        searchLoop samples expected mid hi ⟨mid, score.1, score.2⟩ (done + 1)
      else searchLoop samples expected lo (mid - 1) best (done + 1)
  else .ret best
termination_by (hi - lo).toNat
decreasing_by all_goals omega

def findQuality (lo hi : Int) : Searching (Option QualitySearchResult) := do
  let samples ← extractSamples request
  let expected := expectedProbes lo hi
  let score ← meets request samples expected 1 lo
  if passes request score then do
    let best ← searchLoop request samples expected lo hi ⟨lo, score.1, score.2⟩ 1
    .ret (some best)
  else .ret none

def findQualityForTarget : Searching (Option QualitySearchResult) :=
  findQuality request searchRange.1 searchRange.2

end Model

section Probes

variable {request : QualitySearch} {answer : (op : SearchOp) → op.Answer} {samples : List Nat}
  {quality : Int}

-- The first sample is encoded once in every probe.
def probeOf : SearchOp → Option Int
  | .sampleEncode _ _ sample quality _ => if sample = 0 then some quality else none
  | _ => none

def probes (ops : List SearchOp) : List Int := ops.filterMap probeOf

@[simp] theorem probes_nil : probes [] = [] := rfl

@[simp] theorem probes_append (ops ops' : List SearchOp) :
    probes (ops ++ ops') = probes ops ++ probes ops' := List.filterMap_append

theorem probes_none {ops : List SearchOp} (h : ∀ op ∈ ops, probeOf op = none) : probes ops = [] :=
  List.filterMap_eq_nil_iff.mpr h

theorem quiet_probes {α : Type} {p : Searching α} (h : p.Calls fun op => probeOf op = none) :
    probes (p.asked answer) = [] := probes_none (Program.asked_calls h)

theorem extractEach_quiet (sample : Nat) (rest : List Rat) :
    (extractEach request sample rest).Calls fun op => probeOf op = none := by
  induction rest generalizing sample with
  | nil => trivial
  | cons offset rest ih =>
    refine ⟨rfl, fun failed => ?_⟩
    cases failed with
    | some message => trivial
    | none => exact (ih _).bind fun _ => trivial

theorem reportProbe_quiet (done expected : Nat) :
    (reportProbe request done expected).Calls fun op => probeOf op = none := by
  unfold reportProbe
  split
  · refine ⟨rfl, fun raised => ?_⟩
    cases raised <;> trivial
  · trivial

theorem sampleEncode_calls {A : SearchOp → Prop} {sample : Nat}
    (h : A (.sampleEncode request.codec request.backend sample quality request.targetHeight)) :
    (sampleEncode request quality sample).Calls A := by
  refine ⟨h, fun encoded => ?_⟩
  cases encoded with
  | error message => trivial
  | ok encoded =>
    dsimp only
    split <;> trivial

theorem sampleScore_quiet (sample : Nat) :
    (sampleScore request quality sample).Calls fun op => probeOf op = none :=
  ⟨rfl, fun _ => Program.Calls.ofExcept _⟩

theorem evaluateEach_quiet (h : ∀ sample ∈ samples, sample ≠ 0) :
    (evaluateEach request quality samples).Calls fun op => probeOf op = none := by
  induction samples with
  | nil => trivial
  | cons sample rest ih =>
    have hsample : sample ≠ 0 := h sample List.mem_cons_self
    refine (sampleEncode_calls (by simp [probeOf, hsample])).bind fun _ =>
      (sampleScore_quiet sample).bind fun _ => Program.Calls.bind (ih fun sample' hsample' => ?_)
        fun _ => trivial
    exact h sample' (List.mem_cons_of_mem _ hsample')

-- Samples are numbered from the first one on, and there is always one.
theorem extractEach_samples {sample : Nat} {rest : List Rat}
    (h : (extractEach request sample rest).result answer = .ok samples) :
    samples = List.range' sample rest.length := by
  induction rest generalizing sample samples with
  | nil =>
    cases h
    rfl
  | cons offset rest ih =>
    rw [extractEach, Program.result_call] at h
    cases hcut : answer (.extractSample sample offset request.primaryIndex) with
    | some message =>
      rw [hcut] at h
      cases h
    | none =>
      rw [hcut] at h
      obtain ⟨later, hrest, heq⟩ := Program.result_bind_inv h
      cases heq
      rw [ih hrest]
      rfl

theorem offsets_ne_nil (duration : Rat) : offsets duration ≠ [] := by
  unfold offsets
  split <;> simp [sampleOffsets]

theorem extractSamples_cons (h : (extractSamples request).result answer = .ok samples) :
    ∃ rest, samples = 0 :: rest ∧ ∀ sample ∈ rest, sample ≠ 0 := by
  have hsamples := extractEach_samples h
  cases hoffsets : offsets request.duration with
  | nil => exact absurd hoffsets (offsets_ne_nil _)
  | cons offset rest =>
    rw [hoffsets, List.length_cons, List.range'_succ] at hsamples
    refine ⟨_, hsamples, fun sample hsample => ?_⟩
    have hrange := List.mem_range'_1.mp hsample
    omega

theorem sampleEncode_probes :
    probes ((sampleEncode request quality 0).asked answer) = [quality] := by
  rw [sampleEncode, Program.asked_call]
  generalize answer (.sampleEncode request.codec request.backend 0 quality
    request.targetHeight) = encoded
  cases encoded with
  | error message => rfl
  | ok encoded =>
    dsimp only
    split <;> rfl

theorem evaluateQuality_probes {rest : List Nat} {score : Rat × Rat}
    (hrest : ∀ sample ∈ rest, sample ≠ 0)
    (h : (evaluateQuality request (0 :: rest) quality).result answer = .ok score) :
    probes ((evaluateQuality request (0 :: rest) quality).asked answer) = [quality] := by
  obtain ⟨scores, hscores, hpooled⟩ := Program.result_bind_inv h
  obtain ⟨_, hencode, hafter⟩ := Program.result_bind_inv hscores
  obtain ⟨score₀, hscore, hlater⟩ := Program.result_bind_inv hafter
  have hpool : probes ((match worst (scores.map VmafScore.perc5) with
      | none => .raise (.other "division by zero")
      | some perc5 => .ret ((scores.map VmafScore.mean).sum / scores.length, perc5) :
        Searching (Rat × Rat)).asked answer) = [] := by
    cases worst (scores.map VmafScore.perc5) <;> rfl
  have hothers : ((sampleScore request quality 0).bind fun score =>
      (evaluateEach request quality rest).bind fun scores =>
        (.ret (score :: scores) : Searching (List VmafScore))).Calls fun op => probeOf op = none :=
    (sampleScore_quiet 0).bind fun _ => (evaluateEach_quiet hrest).bind fun _ => trivial
  have hfirst : probes ((evaluateEach request quality (0 :: rest)).asked answer) = [quality] := by
    change probes (Program.asked answer (Program.bind _ _)) = _
    rw [Program.asked_bind_ok hencode, probes_append, sampleEncode_probes]
    exact congrArg ([quality] ++ ·) (quiet_probes hothers)
  change probes (Program.asked answer (Program.bind _ _)) = _
  rw [Program.asked_bind_ok hscores, probes_append, hfirst, hpool, List.append_nil]

end Probes

section Search

variable {request : QualitySearch} {answer : (op : SearchOp) → op.Answer} {samples : List Nat}
  {lo hi : Int} {oracle : Int → Rat × Rat}

-- The machine cuts the samples and finds a score for every quality of the range.
structure Answers (request : QualitySearch) (answer : (op : SearchOp) → op.Answer) (lo hi : Int)
    (oracle : Int → Rat × Rat) (samples : List Nat) : Prop where
  extracted : (extractSamples request).result answer = .ok samples
  reported : ∀ done total, answer (.onProbe done total) = none
  evaluated : ∀ q, lo ≤ q → q ≤ hi →
    (evaluateQuality request samples q).result answer = .ok (oracle q)

def Meets (request : QualitySearch) (score : Rat × Rat) : Prop :=
  request.targetVmaf ≤ score.1 ∧ request.perc5Floor ≤ score.2

theorem passes_iff {score : Rat × Rat} : passes request score = true ↔ Meets request score := by
  simp [passes, Meets]

def found (oracle : Int → Rat × Rat) (q : Int) : QualitySearchResult :=
  ⟨q, (oracle q).1, (oracle q).2⟩

theorem reportProbe_result (hreported : ∀ done total, answer (.onProbe done total) = none)
    (done expected : Nat) : (reportProbe request done expected).result answer = .ok () := by
  unfold reportProbe
  split
  · rw [Program.result_call, hreported]
    rfl
  · rfl

theorem Answers.meets (h : Answers request answer lo hi oracle samples) {q : Int} (hlo : lo ≤ q)
    (hhi : q ≤ hi) (expected done : Nat) :
    (meets request samples expected done q).result answer = .ok (oracle q) ∧
      probes ((Vmaf.meets request samples expected done q).asked answer) = [q] := by
  have hreport : (reportProbe request done expected).result answer = .ok () :=
    reportProbe_result h.reported done expected
  have hscore := h.evaluated q hlo hhi
  obtain ⟨rest, rfl, hrest⟩ := extractSamples_cons h.extracted
  constructor
  · exact (Program.result_bind_ok hreport).trans hscore
  · rw [Vmaf.meets, Program.asked_bind_ok hreport, probes_append,
      quiet_probes (reportProbe_quiet done expected), List.nil_append]
    exact evaluateQuality_probes hrest hscore

theorem Answers.narrow {lo' hi' : Int} (h : Answers request answer lo hi oracle samples)
    (hlo : lo ≤ lo') (hhi : hi' ≤ hi) : Answers request answer lo' hi' oracle samples :=
  ⟨h.extracted, h.reported, fun q hq hq' => h.evaluated q (by omega) (by omega)⟩

-- The loop is the bisection: it keeps the score of its lower end, and probes the midpoints.
theorem searchLoop_bisects (expected done : Nat) (h : Answers request answer lo hi oracle samples) :
    (searchLoop request samples expected lo hi (found oracle lo) done).result answer =
        .ok (found oracle (Bisection.last (fun q => passes request (oracle q)) lo hi)) ∧
      probes ((searchLoop request samples expected lo hi (found oracle lo) done).asked answer) =
        Bisection.looks (fun q => passes request (oracle q)) lo hi := by
  induction lo, hi using Bisection.induct fun q => passes request (oracle q)
    generalizing done with
  | hdone lo hi hle =>
    rw [searchLoop, if_neg hle, Bisection.last_done hle, Bisection.looks_done hle]
    exact ⟨rfl, rfl⟩
  | haccept lo hi mid hlo hhi hmid haccepts ih =>
    have hlt : lo < hi := by omega
    obtain ⟨hresult, hprobes⟩ := h.meets (q := mid) (by omega) hhi expected (done + 1)
    obtain ⟨hlast, hlooks⟩ := ih (done + 1) (h.narrow (by omega) (by omega))
    rw [searchLoop, if_pos hlt, Bisection.last_accept hlt hmid haccepts,
      Bisection.looks_accept hlt hmid haccepts]
    simp only [← hmid]
    rw [Program.result_bind_ok hresult, Program.asked_bind_ok hresult, if_pos haccepts,
      probes_append, hprobes]
    exact ⟨hlast, congrArg (mid :: ·) hlooks⟩
  | hrefuse lo hi mid hlo hhi hmid hrefuses ih =>
    have hlt : lo < hi := by omega
    obtain ⟨hresult, hprobes⟩ := h.meets (q := mid) (by omega) hhi expected (done + 1)
    obtain ⟨hlast, hlooks⟩ := ih (done + 1) (h.narrow (by omega) (by omega))
    rw [searchLoop, if_pos hlt, Bisection.last_refuse hlt hmid hrefuses,
      Bisection.looks_refuse hlt hmid hrefuses]
    simp only [← hmid]
    rw [Program.result_bind_ok hresult, Program.asked_bind_ok hresult, if_neg (by simp [hrefuses]),
      probes_append, hprobes]
    exact ⟨hlast, congrArg (mid :: ·) hlooks⟩

-- The search probes the best quality and goes on from there.
theorem findQuality_eq (hrange : lo ≤ hi) (h : Answers request answer lo hi oracle samples) :
    ∃ rest : Searching (Option QualitySearchResult),
      (findQuality request lo hi).result answer = rest.result answer ∧
      probes ((findQuality request lo hi).asked answer) = lo :: probes (rest.asked answer) ∧
      rest = if passes request (oracle lo) then
          (searchLoop request samples (expectedProbes lo hi) lo hi (found oracle lo) 1).bind
            fun best => .ret (some best)
        else .ret none := by
  obtain ⟨hresult, hprobes⟩ := h.meets (Int.le_refl lo) hrange (expectedProbes lo hi) 1
  refine ⟨_, ?_, ?_, rfl⟩
  · exact (Program.result_bind_ok h.extracted).trans (Program.result_bind_ok hresult)
  · change probes (Program.asked answer (Program.bind _ _)) = _
    rw [Program.asked_bind_ok h.extracted, probes_append]
    change _ ++ probes (Program.asked answer (Program.bind _ _)) = _
    rw [Program.asked_bind_ok hresult, probes_append, hprobes]
    rw [extractSamples, quiet_probes (extractEach_quiet 0 (offsets request.duration))]
    rfl

theorem findQuality_refused (hrange : lo ≤ hi) (h : Answers request answer lo hi oracle samples)
    (hlo : passes request (oracle lo) = false) :
    (findQuality request lo hi).result answer = .ok none ∧
      probes ((findQuality request lo hi).asked answer) = [lo] := by
  obtain ⟨rest, hresult, hprobes, hrest⟩ := findQuality_eq hrange h
  rw [hlo] at hrest
  subst hrest
  exact ⟨hresult, hprobes⟩

theorem findQuality_bisects (hrange : lo ≤ hi) (h : Answers request answer lo hi oracle samples)
    (hlo : passes request (oracle lo) = true) :
    (findQuality request lo hi).result answer =
        .ok (some (found oracle (Bisection.last (fun q => passes request (oracle q)) lo hi))) ∧
      probes ((findQuality request lo hi).asked answer) =
        lo :: Bisection.looks (fun q => passes request (oracle q)) lo hi := by
  obtain ⟨rest, hresult, hprobes, hrest⟩ := findQuality_eq hrange h
  obtain ⟨hlast, hlooks⟩ := searchLoop_bisects (expectedProbes lo hi) 1 h
  rw [if_pos hlo] at hrest
  subst hrest
  constructor
  · exact hresult.trans (Program.result_bind_ok hlast)
  · rw [hprobes, Program.asked_bind_ok hlast, probes_append, hlooks]
    exact congrArg (lo :: ·) (List.append_nil _)

-- What a search that ends with a quality says about it.
structure Resolved (request : QualitySearch) (lo hi : Int) (oracle : Int → Rat × Rat)
    (tried : List Int) (best : QualitySearchResult) : Prop where
  range : lo ≤ best.quality ∧ best.quality ≤ hi
  probed : best.quality ∈ tried
  meets : Meets request (oracle best.quality)
  predicted : (best.predictedMean, best.predictedPerc5) = oracle best.quality
  stopped : best.quality = hi ∨
    best.quality + 1 ∈ tried ∧ ¬Meets request (oracle (best.quality + 1))
  largest : (∀ q q', lo ≤ q → q ≤ q' → q' ≤ hi →
      (oracle q').1 ≤ (oracle q).1 ∧ (oracle q').2 ≤ (oracle q).2) →
    ∀ q, lo ≤ q → q ≤ hi → Meets request (oracle q) → q ≤ best.quality

theorem Meets.mono {score score' : Rat × Rat} (h : Meets request score)
    (hle : score.1 ≤ score'.1 ∧ score.2 ≤ score'.2) : Meets request score' :=
  ⟨h.1.trans hle.1, h.2.trans hle.2⟩

theorem found_resolved (hrange : lo ≤ hi) (hlo : Meets request (oracle lo)) :
    Resolved request lo hi oracle
      (lo :: Bisection.looks (fun q => passes request (oracle q)) lo hi)
      (found oracle (Bisection.last (fun q => passes request (oracle q)) lo hi)) where
  range := Bisection.last_range _ hrange
  probed := by
    rcases Bisection.last_accepted (fun q => passes request (oracle q)) lo hi with heq | ⟨hmem, -⟩
    · exact List.mem_cons.mpr (.inl heq)
    · exact List.mem_cons_of_mem _ hmem
  meets := by
    rcases Bisection.last_accepted (fun q => passes request (oracle q)) lo hi with heq | ⟨-, hq⟩
    · simpa only [found, heq] using hlo
    · exact passes_iff.mp hq
  predicted := rfl
  stopped := by
    refine (Bisection.next_refused (fun q => passes request (oracle q)) hrange).imp_right ?_
    rintro ⟨hmem, hrefused⟩
    refine ⟨List.mem_cons_of_mem _ hmem, fun hmeets => ?_⟩
    exact Bool.false_ne_true (hrefused.symm.trans (passes_iff.mpr hmeets))
  largest hmono q hq hqhi hmeets := by
    refine Bisection.last_greatest hrange ?_ hqhi (passes_iff.mpr hmeets)
    intro q q' hq hqq' hq' hpasses
    exact passes_iff.mpr ((passes_iff.mp hpasses).mono (hmono q q' hq hqq' hq'))

theorem quality_search_correct (hrange : lo ≤ hi)
    (h : Answers request answer lo hi oracle samples) :
    (∃ o, (findQuality request lo hi).result answer = .ok o) ∧
    (probes ((findQuality request lo hi).asked answer)).Nodup ∧
    (probes ((findQuality request lo hi).asked answer)).length ≤
      1 + Nat.clog 2 ((hi - lo).toNat + 1) ∧
    ((findQuality request lo hi).result answer = .ok none ↔ ¬Meets request (oracle lo)) ∧
    ∀ best, (findQuality request lo hi).result answer = .ok (some best) →
      Resolved request lo hi oracle (probes ((findQuality request lo hi).asked answer)) best := by
  cases hpasses : passes request (oracle lo) with
  | false =>
    have hmisses : ¬Meets request (oracle lo) := fun hmeets =>
      Bool.false_ne_true (hpasses.symm.trans (passes_iff.mpr hmeets))
    obtain ⟨hresult, hprobes⟩ := findQuality_refused hrange h hpasses
    rw [hresult, hprobes]
    refine ⟨⟨_, rfl⟩, List.nodup_singleton lo, by simp, by simp [hmisses], fun best heq => ?_⟩
    cases heq
  | true =>
    have hmeets := passes_iff.mp hpasses
    obtain ⟨hresult, hprobes⟩ := findQuality_bisects hrange h hpasses
    have hlooks := Bisection.looks_length (fun q => passes request (oracle q)) lo hi
    rw [hresult, hprobes]
    refine ⟨⟨_, rfl⟩, ?_, ?_, by simp [hmeets], fun best heq => ?_⟩
    · refine List.nodup_cons.mpr ⟨fun hmem => ?_, Bisection.looks_nodup _ lo hi⟩
      have hlow := (Bisection.looks_range hmem).1
      omega
    · rw [List.length_cons]
      omega
    · cases heq
      exact found_resolved hrange hmeets

end Search

section Sample

def sampleSearch : QualitySearch where
  codec := "hevc"
  backend := "cpu"
  targetVmaf := 97
  perc5Floor := 95
  height := some 1080
  targetHeight := none
  primaryIndex := some 0
  duration := 30
  reportsProbes := true

-- The score falls, rises over two qualities and falls again.
def sampleCurve (q : Int) : Rat × Rat := if q = 18 ∨ 22 < q then (90, 80) else (98, 96)

def sampleAnswer : (op : SearchOp) → op.Answer
  | .extractSample _ _ _ => none
  | .onProbe _ _ => none
  | .sampleEncode _ _ _ _ _ => .ok ⟨true, none⟩
  | .sampleScore _ q _ _ => .ok ⟨(sampleCurve q).1, (sampleCurve q).2⟩

theorem sampleSearch_answers :
    Answers sampleSearch sampleAnswer 16 30 sampleCurve [0] where
  extracted := by
    have hshort : offsets sampleSearch.duration = [0] := by decide +kernel
    rw [extractSamples, hshort]
    rfl
  reported _ _ := rfl
  evaluated q _ _ := by
    change Except.ok (((sampleCurve q).1 + 0) / ((1 : Nat) : Rat), (sampleCurve q).2) = _
    simp

theorem quality_search_correct_sample :
    ((∃ o, (findQualityForTarget sampleSearch).result sampleAnswer = .ok o) ∧
      (probes ((findQualityForTarget sampleSearch).asked sampleAnswer)).Nodup ∧
      (probes ((findQualityForTarget sampleSearch).asked sampleAnswer)).length ≤
        1 + Nat.clog 2 ((30 - 16 : Int).toNat + 1) ∧
      ((findQualityForTarget sampleSearch).result sampleAnswer = .ok none ↔
        ¬Meets sampleSearch (sampleCurve 16)) ∧
      ∀ best, (findQualityForTarget sampleSearch).result sampleAnswer = .ok (some best) →
        Resolved sampleSearch 16 30 sampleCurve
          (probes ((findQualityForTarget sampleSearch).asked sampleAnswer)) best) ∧
    Meets sampleSearch (sampleCurve 16) :=
  ⟨quality_search_correct (by decide) sampleSearch_answers, passes_iff.mp (by decide +kernel)⟩

end Sample

end TranscodeForge.Vmaf
