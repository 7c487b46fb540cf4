import TranscodeForge.Interaction.Sequence
import TranscodeForge.Worker.LockSteps
import TranscodeForge.Worker.NeverLose

namespace TranscodeForge.Gone

open Interaction SourcePath Filesystem Pipeline Phases Recovery LockSteps NeverLose

-- A pipeline on a path, as far as it has come.
structure Progress where
  state : PathState
  rest : Worker PipelineResult
  calls : List PathCall

-- The pipeline and its heartbeat go on.
def Progresses (w : String) (x x' : Progress) : Prop :=
  ∃ s es, Exec handler ⟨w, .main⟩ (Undisturbed w) x.rest x.state es x'.rest s ∧
    Undisturbed w s x'.state ∧ x'.calls = x.calls ++ es

inductive Look where
  | stat
  | exists (f : File)
deriving DecidableEq, Repr

abbrev Look.Answer : Look → Type
  | .stat => Except OSError Unit
  | .exists _ => Bool

-- A look changes nothing; `os.path.exists` takes a stat that fails for an absence.
def look (_ : Unit) : (l : Look) → Bool → Progress → Progress × l.Answer
  | .stat, fault, x =>
    (x, if fault then .error .other else if x.state.source.isSome then .ok () else .error .notFound)
  | .exists f, fault, x => (x, !fault && x.state.present f)

def looks : Handler Unit Look Look.Answer Progress Bool where
  exec := look

abbrev Scanner := Program Look Look.Answer Failure

abbrev Sighting := CallRecord Look Progress Bool

def anyExists : List File → Scanner Bool
  | [] => pure false
  | f :: files => do
    if ← Program.perform (.exists f) then pure true else anyExists files

def isGone : Scanner Bool := do
  match ← (Program.perform Look.stat : Scanner (Except OSError Unit)) with
  | .error .notFound =>
    let any ← anyExists [.lock, tmpFile, bakFile]
    pure !any
  | .error _ => pure false
  | .ok () => pure false

-- The checks of one path, between any of the steps of a pipeline on it.
abbrev Watch (job : PipelineJob) (s : PathState) (es : List Sighting) (answer : Scanner Bool)
    (x : Progress) : Prop :=
  Exec looks () (Progresses job.workerId) isGone ⟨s, runPipeline job, []⟩ es answer x

def Missed (e : Sighting) : Prop := e.input = false ∧ e.pre.state.source = none

def Overlooked (f : File) (e : Sighting) : Prop := e.input = true ∨ e.pre.state.present f = false

def Unlocks (c : PathCall) : Prop := c.op.action = .unlink .lock

def UnlockedBetween (e e' : Sighting) : Prop :=
  ∃ cs, e'.pre.calls = e.pre.calls ++ cs ∧ ∃ c ∈ cs, Unlocks c

-- The file was missing, the lock was gone again or its stat failed, and nothing else was seen.
def Raced (es : List Sighting) : Prop :=
  ∃ e₁ e₂ e₃ e₄, es = [e₁, e₂, e₃, e₄] ∧ Missed e₁ ∧ Overlooked .lock e₂ ∧
    (e₂.input = true ∨ UnlockedBetween e₁ e₂) ∧ Overlooked tmpFile e₃ ∧ Overlooked bakFile e₄

section Looking

variable {x x' : Progress} {f : File} {fault : Bool} {rely : Progress → Progress → Prop}
  {es : List Sighting} {q : Scanner Bool}

theorem exists_answer : looks.answer () (.exists f) fault x = false ↔
    fault = true ∨ x.state.present f = false := by
  simp only [Handler.answer, looks, look]
  cases fault <;> simp

theorem stat_answer : looks.answer () .stat fault x = .error .notFound ↔
    fault = false ∧ x.state.source = none := by
  simp only [Handler.answer, looks, look]
  cases fault <;> cases x.state.source <;> simp

theorem anyExists_cons (f : File) (files : List File) (k : Bool → Scanner Bool) :
    (anyExists (f :: files)).bind k =
      .call (.exists f) fun found => if found then k true else (anyExists files).bind k := by
  simp only [anyExists, Program.perform, Program.bind_eq, Program.call_bind, Program.ret_bind]
  congr 1
  funext found
  cases found <;> rfl

theorem look_nil {l : Look} {k : l.Answer → Scanner Bool}
    (h : Exec looks () rely (.call l k) x [] q x') : q = .call l k := by
  rcases h.head with ⟨-, hq, -⟩ | ⟨i, x₁, es', -, hes, -⟩
  · exact hq
  · cases hes

theorem look_cons {l : Look} {k : l.Answer → Scanner Bool} {e : Sighting}
    (h : Exec looks () rely (.call l k) x (e :: es) q x') :
    Exec looks () rely (k (looks.answer () l e.input e.pre)) e.pre es q x' := by
  rcases h.head with ⟨hes, -, -⟩ | ⟨i, x₁, es', -, hes, hrest⟩
  · cases hes
  · cases hes
    cases l <;> exact hrest

-- The search comes back empty iff every look for one of the files missed it.
theorem anyExists_false {files : List File}
    (h : Exec looks () rely ((anyExists files).bind fun any => .ret !any) x es q x') :
    q = .ret true ↔ List.Forall₂ Overlooked files es := by
  induction files generalizing x es with
  | nil =>
    obtain ⟨rfl, rfl⟩ := Exec.of_ret h
    simp
  | cons f files ih =>
    rw [anyExists_cons] at h
    cases es with
    | nil =>
      rw [look_nil h]
      simp
    | cons e es =>
      have hrest := look_cons h
      rw [List.forall₂_cons]
      cases hfound : looks.answer () (.exists f) e.input e.pre with
      | true =>
        rw [hfound] at hrest
        obtain ⟨rfl, rfl⟩ := Exec.of_ret hrest
        have hseen : ¬ Overlooked f e := fun h => by
          rw [exists_answer.mpr h] at hfound
          cases hfound
        simp [hseen]
      | false =>
        rw [hfound] at hrest
        rw [ih hrest]
        exact (and_iff_right (exists_answer.mp hfound)).symm

theorem isGone_true (h : Exec looks () rely isGone x es q x') :
    q = .ret true ↔ ∃ e₁ e₂ e₃ e₄, es = [e₁, e₂, e₃, e₄] ∧ Missed e₁ ∧ Overlooked .lock e₂ ∧
      Overlooked tmpFile e₃ ∧ Overlooked bakFile e₄ := by
  have hbody : isGone = .call .stat fun found => match found with
      | .error .notFound => (anyExists [.lock, tmpFile, bakFile]).bind fun any => .ret !any
      | .error _ => .ret false
      | .ok () => .ret false := rfl
  rw [hbody] at h
  cases es with
  | nil =>
    rw [look_nil h]
    simp
  | cons e es =>
    have hrest := look_cons h
    by_cases hmissed : Missed e
    · rw [stat_answer.mpr hmissed] at hrest
      rw [anyExists_false hrest]
      constructor
      · intro hall
        rcases hall with _ | ⟨hlock, _ | ⟨htmp, _ | ⟨hbak, _ | _⟩⟩⟩
        exact ⟨e, _, _, _, rfl, hmissed, hlock, htmp, hbak⟩
      · rintro ⟨e₁, e₂, e₃, e₄, heq, -, hlock, htmp, hbak⟩
        cases heq
        exact .cons hlock (.cons htmp (.cons hbak .nil))
    · have hfalse : q = .ret false := by
        cases hfound : looks.answer () .stat e.input e.pre with
        | ok u =>
          rw [hfound] at hrest
          exact (Exec.of_ret hrest).1
        | error error =>
          rw [hfound] at hrest
          cases error with
          | notFound => exact absurd (stat_answer.mp hfound) hmissed
          | fileExists => exact (Exec.of_ret hrest).1
          | other => exact (Exec.of_ret hrest).1
      rw [hfalse]
      constructor
      · intro h
        cases h
      · rintro ⟨e₁, e₂, e₃, e₄, heq, hmissed', -⟩
        cases heq
        exact absurd hmissed' hmissed

end Looking

section Locked

variable {w : String} {s s' : PathState}

theorem step_locked (a : Actor) {c : Call} (i : Input) (hc : c.action ≠ .unlink .lock)
    (hlock : s.lock.isSome) : (exec a c i s).1.lock.isSome := by
  cases exec_lockStep a c i s with
  | still same => rw [same.lock]; exact hlock
  | missed call absent post => rw [absent] at hlock; cases hlock
  | saw seen call found post => rw [post]; exact hlock
  | flagged own handle touching post => rw [post]; exact hlock
  | opened call post => rw [post]; exact hlock
  | created call free post => rw [free] at hlock; cases hlock
  | tornWrite post => rw [post]; exact hlock
  | wrote text call post =>
    rw [post, PathState.stampHold_lock]
    exact (Calm.writeThrough a.worker s _ text).locked hlock
  | released works call present post => exact absurd call hc
  | wroteNew text post => rw [post]; exact hlock
  | droppedNew post => rw [post]; exact hlock
  | refreshed l works call new post =>
    rw [post, PathState.stampHold_lock]
    rfl

theorem Progresses.refl (w : String) (x : Progress) : Progresses w x x :=
  ⟨x.state, [], .refl _ _, .refl _ _, by simp⟩

-- The heartbeat's steps after an execution come before the next call.
theorem exec_later {p p' : Worker PipelineResult} {s₁ s₂ : PathState} {cs : List PathCall}
    (hr : Undisturbed w s s₁) (h : Exec handler ⟨w, .main⟩ (Undisturbed w) p s₁ cs p' s₂) :
    ∃ s', Exec handler ⟨w, .main⟩ (Undisturbed w) p s cs p' s' ∧ Undisturbed w s' s₂ := by
  induction h with
  | refl => exact ⟨s, .refl _ _, hr⟩
  | call i _ hr' hready ih =>
    obtain ⟨s', hexec, hlater⟩ := ih
    exact ⟨_, hexec.call i (hlater.trans hr') hready, .refl _ _⟩

theorem Progresses.trans {x₁ x₂ x₃ : Progress} (h : Progresses w x₁ x₂) (h' : Progresses w x₂ x₃) :
    Progresses w x₁ x₃ := by
  obtain ⟨s, cs, hexec, hr, hcalls⟩ := h
  obtain ⟨s', cs', hexec', hr', hcalls'⟩ := h'
  obtain ⟨s'', hexec'', hr''⟩ := exec_later hr hexec'
  refine ⟨s'', cs ++ cs', hexec.trans hexec'', hr''.trans hr', ?_⟩
  rw [hcalls', hcalls, List.append_assoc]

-- A lock that is gone later was released in between.
theorem Progresses.unlocked {x x' : Progress} (h : Progresses w x x') (hlock : x.state.lock.isSome)
    (hgone : x'.state.lock = none) : ∃ cs, x'.calls = x.calls ++ cs ∧ ∃ c ∈ cs, Unlocks c := by
  obtain ⟨s, cs, hexec, hr, hcalls⟩ := h
  have hopen : ∀ s s' : PathState, Undisturbed w s s' → s'.lock = none → s.lock = none := by
    intro s s' hr hnone
    by_contra hsome
    have hkept := hr.locked (Option.isSome_iff_ne_none.mpr hsome)
    rw [hnone] at hkept
    cases hkept
  have hpresent : ¬ x.state.lock = none := Option.isSome_iff_ne_none.mp hlock
  obtain ⟨c, hc, hpre, hpost⟩ := hexec.event hopen hpresent (hopen _ _ hr hgone)
  refine ⟨cs, hcalls, c, hc, ?_⟩
  by_contra hother
  have hkept := step_locked ⟨w, .main⟩ c.input hother (Option.isSome_iff_ne_none.mpr hpre)
  have hstep : c.post = (exec ⟨w, .main⟩ c.op c.input c.pre).1 := hexec.post_eq c hc
  rw [← hstep, hpost] at hkept
  cases hkept

-- While the file of a pipeline is missing, its lock is there.
theorem Progresses.locked {job : PipelineJob} {original : Bytes} {x : Progress}
    (h : Progresses job.workerId ⟨s, runPipeline job, []⟩ x) (hfresh : Fresh job.workerId s)
    (hsource : s.source = some original) (hmissing : x.state.source = none) :
    x.state.lock.isSome := by
  obtain ⟨s', cs, hexec, hr, -⟩ := h
  have hsafe := swapSafe_undisturbed (pipeline_swapSafe hexec hfresh).2.2 hr
  rw [hsource] at hsafe
  rcases hsafe with ⟨hs, -⟩ | ⟨-, -, hlock⟩ | ⟨-, -, content, -, hs⟩
  · rw [hmissing] at hs
    cases hs
  · exact hlock
  · rw [hmissing] at hs
    cases hs

end Locked

section Verdict

variable {job : PipelineJob} {s : PathState} {es : List Sighting} {answer : Scanner Bool}
  {x x₁ x₂ : Progress}

theorem watch_still (h : Watch job s es answer x) : ∀ e ∈ es, e.post = e.pre := by
  intro e he
  rw [h.post_eq e he]
  cases e.op <;> rfl

theorem watch_rising (h : Watch job s es answer x) :
    Rising (Progresses job.workerId) ⟨s, runPipeline job, []⟩ es x := by
  refine h.rising (Progresses.refl _) (fun _ _ _ => Progresses.trans) (fun _ _ hr => hr) ?_
  intro e he
  rw [watch_still h e he]
  exact .refl _ _

theorem watch_missed (hstart : Progresses job.workerId ⟨s, runPipeline job, []⟩ x₁)
    (hmissing : x₁.state.source = none) :
    Watch job s [⟨.stat, false, x₁, x₁⟩]
      ((anyExists [.lock, tmpFile, bakFile]).bind fun any => .ret !any) x₁ := by
  have hlook := Exec.call (H := looks) (t := ()) false (.refl isGone _) hstart rfl
  have hmissed : looks.answer () .stat false x₁ = .error .notFound := stat_answer.mpr ⟨rfl, hmissing⟩
  rw [hmissed] at hlook
  exact hlook

theorem watch_overlooked {f : File} {files : List File} {k : Bool → Scanner Bool}
    (h : Watch job s es ((anyExists (f :: files)).bind k) x₁)
    (hr : Progresses job.workerId x₁ x₂) (habsent : x₂.state.present f = false) :
    Watch job s (es ++ [⟨.exists f, false, x₂, x₂⟩]) ((anyExists files).bind k) x₂ := by
  rw [anyExists_cons] at h
  have hlook := Exec.call (H := looks) (t := ()) false h hr rfl
  have hoverlooked : looks.answer () (.exists f) false x₂ = false := exists_answer.mpr (.inr habsent)
  rw [hoverlooked] at hlook
  exact hlook

end Verdict

-- A file that is there when the pipeline starts is judged gone exactly when the lock is released
-- between the stat that missed it and the look at the lock, and no sidecar is seen.
theorem not_judged_gone_iff {job : PipelineJob} {original : Bytes} {s : PathState}
    {es : List Sighting} {answer : Scanner Bool} {x : Progress} (hfresh : Fresh job.workerId s)
    (hsource : s.source = some original) (h : Watch job s es answer x) :
    answer ≠ .ret true ↔ ¬ Raced es := by
  have hrising := watch_rising h
  have hstill := watch_still h
  refine not_congr ((isGone_true h).trans ⟨?_, ?_⟩)
  · rintro ⟨e₁, e₂, e₃, e₄, rfl, hmissed, hlock, htmp, hbak⟩
    refine ⟨e₁, e₂, e₃, e₄, rfl, hmissed, hlock, ?_, htmp, hbak⟩
    rcases hlock with hfault | habsent
    · exact .inl hfault
    · have hstart := hrising.before e₁ (by simp)
      have hbetween := (List.pairwise_cons.mp hrising.between).1 e₂ (by simp)
      rw [hstill e₁ (by simp)] at hbetween
      have hlocked := hstart.locked hfresh hsource hmissed.2
      have hnone : e₂.pre.state.lock = none := by simpa [PathState.present] using habsent
      exact .inr (hbetween.unlocked hlocked hnone)
  · rintro ⟨e₁, e₂, e₃, e₄, hes, hmissed, hlock, -, htmp, hbak⟩
    exact ⟨e₁, e₂, e₃, e₄, hes, hmissed, hlock, htmp, hbak⟩

section Sample

-- The rest of the pipeline that was seen between its renames.
def released : DrivenPipeline :=
  (midSwap.2.1.drive handler ⟨"a", .main⟩ (List.replicate 32 allPass) midSwap.2.2).get
    (by decide +kernel)

def displaced : Progress := ⟨midSwap.2.2, midSwap.2.1, midSwap.1⟩

def finished : Progress := ⟨released.2.2, released.2.1, midSwap.1 ++ released.1⟩

theorem displaced_progresses :
    Progresses "a" ⟨samplePath, runPipeline (sampleJob "a"), []⟩ displaced :=
  ⟨_, _, drivePipeline_run (Option.some_get _).symm, .refl _ _, rfl⟩

theorem finished_progresses : Progresses "a" displaced finished :=
  ⟨_, _, Exec.drive (Undisturbed.refl "a") (Option.some_get _).symm, .refl _ _, rfl⟩

def lateLooks : List Sighting :=
  [⟨.stat, false, displaced, displaced⟩, ⟨.exists .lock, false, finished, finished⟩,
    ⟨.exists tmpFile, false, finished, finished⟩, ⟨.exists bakFile, false, finished, finished⟩]

theorem lateLooks_watch : Watch (sampleJob "a") samplePath lateLooks (.ret true) finished := by
  have hmissed : Watch (sampleJob "a") samplePath [⟨.stat, false, displaced, displaced⟩]
      ((anyExists [.lock, tmpFile, bakFile]).bind fun any => .ret !any) displaced :=
    watch_missed displaced_progresses (by decide +kernel)
  have hlock := watch_overlooked hmissed finished_progresses (by decide +kernel)
  have htmp := watch_overlooked hlock (.refl _ _) (by decide +kernel)
  exact watch_overlooked htmp (.refl _ _) (by decide +kernel)

theorem not_judged_gone_iff_lateLooks : Raced lateLooks := by
  by_contra h
  exact (not_judged_gone_iff ⟨rfl, rfl⟩ rfl lateLooks_watch).mpr h rfl

theorem not_never_judged_gone :
    ¬∀ (job : PipelineJob) (original : Bytes) (s : PathState) (es : List Sighting)
      (answer : Scanner Bool) (x : Progress), Fresh job.workerId s → s.source = some original →
      Watch job s es answer x → x.rest.outcome.isSome → x.state.source.isSome →
      answer ≠ .ret true := by
  intro h
  exact h _ _ _ _ _ _ ⟨rfl, rfl⟩ rfl lateLooks_watch (by decide +kernel) (by decide +kernel) rfl

end Sample

end TranscodeForge.Gone
