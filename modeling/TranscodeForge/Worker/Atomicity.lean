import TranscodeForge.Worker.NeverLose

namespace TranscodeForge.Atomicity

open Interaction SourcePath Filesystem Ownership Pipeline Phases CallClasses Outcome Recovery
  NeverLose Agent

section Events

variable (w : String) (e : PathCall)

-- A cancellation delivered once the transaction is confirmed.
def LateCancel : Bool :=
  match e.op.action with
  | .checkCancelled => e.input.cancelled && (e.pre.own w).confirmed
  | _ => false

-- The agent finds an abort requested once the transaction is confirmed.
def LateAbort : Bool :=
  match e.op.action with
  | .abortRequested => e.input.cancelled && (e.pre.own w).confirmed
  | _ => false

-- The commit cannot stat the file the confirmed swap put in place.
def LateFault : Bool :=
  match e.op.action with
  | .stat m => e.op.site == .commit && (e.input.fault || (e.pre.mediaAt m).isNone) &&
      (e.pre.own w).confirmed
  | _ => false

-- The rollback cannot look for a backup that is there.
def BlindRollback : Bool :=
  match e.op.action with
  | .exists f => e.op.site == .rollbackSwap && e.input.fault && e.pre.present f
  | _ => false

def RestoreFailure : Bool :=
  match e.op.action with
  | .replace src _ => e.op.site == .rollbackSwap && (e.input.fault || (e.pre.mediaAt src).isNone)
  | _ => false

-- What one call adds to the notes about its worker.
def noted (notes : Notes) : Notes where
  lateCancel := notes.lateCancel || LateCancel w e
  lateAbort := notes.lateAbort || LateAbort w e
  lateFault := notes.lateFault || LateFault w e
  blindRollback := notes.blindRollback || BlindRollback e
  restoreFailed := notes.restoreFailed || RestoreFailure e

end Events

theorem exec_notes (a : Actor) (c : Call) (i : Input) (s : PathState) :
    (exec a c i s).1.notes a.worker =
      noted a.worker ⟨c, i, s, (exec a c i s).1⟩ (s.notes a.worker) := by
  obtain ⟨site, action⟩ := c
  cases action with
  | «exists» f =>
    by_cases hsite : site = .rollbackSwap
    · cases hi : i.fault <;> cases hp : s.present f <;>
        simp [exec, noted, LateCancel, LateAbort, LateFault, BlindRollback, RestoreFailure,
          PathState.setNotes, hsite, hi, hp]
    · have hne : (site == .rollbackSwap) = false := beq_eq_false_iff_ne.mpr hsite
      cases hi : i.fault <;>
        simp [exec, noted, LateCancel, LateAbort, LateFault, BlindRollback, RestoreFailure,
          hsite, hne, hi]
  | stat m =>
    by_cases hsite : site = .commit
    · cases hi : i.fault <;> cases hm : s.mediaAt m <;> cases hc : (s.own a.worker).confirmed <;>
        simp [exec, noted, LateCancel, LateAbort, LateFault, BlindRollback, RestoreFailure,
          PathState.setNotes, hsite, hi, hm, hc]
    · have hne : (site == .commit) = false := beq_eq_false_iff_ne.mpr hsite
      cases hi : i.fault <;> cases hm : s.mediaAt m <;>
        simp [exec, noted, LateCancel, LateAbort, LateFault, BlindRollback, RestoreFailure,
          hsite, hne, hi, hm]
  | replace src dst =>
    by_cases hsite : site = .rollbackSwap
    · cases hi : i.fault <;> cases hm : s.mediaAt src <;>
        simp [exec, noted, LateCancel, LateAbort, LateFault, BlindRollback, RestoreFailure,
          PathState.setNotes, moveMedia, hsite, hi, hm]
    · have hne : (site == .rollbackSwap) = false := beq_eq_false_iff_ne.mpr hsite
      cases hi : i.fault <;> cases hm : s.mediaAt src <;>
        simp [exec, noted, LateCancel, LateAbort, LateFault, BlindRollback, RestoreFailure,
          moveMedia, hsite, hne, hi, hm]
  | checkCancelled =>
    cases hi : i.cancelled <;> cases hc : (s.own a.worker).confirmed <;>
      simp [exec, noted, LateCancel, LateAbort, LateFault, BlindRollback, RestoreFailure,
        PathState.setNotes, hi, hc]
  | abortRequested =>
    cases hi : i.cancelled <;> cases hc : (s.own a.worker).confirmed <;>
      simp [exec, noted, LateCancel, LateAbort, LateFault, BlindRollback, RestoreFailure,
        PathState.setNotes, hi, hc]
  | _ =>
    simp only [noted, LateCancel, LateAbort, LateFault, BlindRollback, RestoreFailure,
      Bool.or_false]
    simp only [exec, query]
    repeat' split
    all_goals simp [PathState.setOwn, PathState.setHold, PathState.setSaw, PathState.setExamined,
      PathState.createLock, moveMedia]

-- The notes about a worker after a run that started without any.
def notesOf (w : String) (es : List PathCall) : Notes where
  lateCancel := es.any (LateCancel w)
  lateAbort := es.any (LateAbort w)
  lateFault := es.any (LateFault w)
  blindRollback := es.any BlindRollback
  restoreFailed := es.any RestoreFailure

theorem notesOf_append (w : String) (es : List PathCall) (e : PathCall) :
    notesOf w (es ++ [e]) = noted w e (notesOf w es) := by
  simp [notesOf, noted]

theorem exec_notesOf {α : Type} {w : String} {p p' : Worker α} {s s' : PathState}
    {es : List PathCall} (h : Exec handler ⟨w, .main⟩ (Undisturbed w) p s es p' s')
    (hs : s.notes w = {}) : s'.notes w = notesOf w es := by
  induction h with
  | refl => exact hs
  | @call s₁ s₂ es c k i _ hr _ ih =>
    have hpre : s₂.notes w = notesOf w es := hr.notes.trans ih
    have hpost := exec_notes ⟨w, .main⟩ c i s₂
    rw [notesOf_append]
    exact hpost.trans (congrArg _ hpre)

section Report

variable {α : Type} {w : String} {o b : Option Bytes} {s : PathState}

-- A report that the job was not done.
def GivesUp : Report → Bool
  | .complete .. => false
  | .skipped .. | .failed .. => true

-- The original is in place, unless its restore failed, and that is owed to what went before.
def Accounted (w : String) (o : Option Bytes) (s : PathState) : Prop :=
  ((s.notes w).restoreFailed = false → s.source = o) ↔
    ((s.notes w).lateAbort = false ∧ (s.notes w).lateFault = false ∧
      (s.notes w).blindRollback = false)

def filing (w : String) (o : Option Bytes) : Contract Call PathState Input where
  rely := Undisturbed w
  assume := fun _ _ _ => True
  guar := fun c _ s _ => ∀ r, c.action = .report r → GivesUp r → Accounted w o s

abbrev Files (w : String) (o : Option Bytes) (p : Worker α)
    (Q : Except Failure α → PathState → Prop) (s : PathState) : Prop :=
  p.wp handler ⟨w, .main⟩ (filing w o) Q s

theorem phase_accounted {bak : Option Bytes} {mutating confirmed : Bool} {notes : Notes}
    {source : Option Bytes} (h : Phase w source bak mutating confirmed notes s)
    (hn : (notes.restoreFailed = false → source = o) ↔
      (notes.lateAbort = false ∧ notes.lateFault = false ∧ notes.blindRollback = false)) :
    Accounted w o s := by
  unfold Accounted
  rw [h.notes, h.source]
  exact hn

theorem reverted_accounted (h : Reverted w o b s) : Accounted w o s := by
  rcases h with h | h | ⟨_, _, source, _, h⟩
  · exact phase_accounted h (by simp)
  · exact phase_accounted h.2 (by simp)
  · exact phase_accounted h (by simp)

theorem stranded_accounted (h : Stranded w o b { blindRollback := true } s) :
    Accounted w o s := by
  obtain ⟨_, _, source, hne, h⟩ := h
  exact phase_accounted h (by simpa using hne)

theorem committed_accounted {notes : Notes} (h : Committed w o b notes s)
    (hr : notes.restoreFailed = false) (hn : notes.lateAbort ∨ notes.lateFault) :
    Accounted w o s := by
  obtain ⟨_, c, _, hne, _, h⟩ := h
  refine phase_accounted h ⟨fun hc => absurd (hc hr) hne, fun hc => ?_⟩
  rcases hn with hn | hn
  · exact absurd (hn.symm.trans hc.1) (by decide)
  · exact absurd (hn.symm.trans hc.2.1) (by decide)

theorem piped_guar {c : Call} (hc : Piped c) (i : Input) (s s' : PathState) :
    (filing w o).guar c i s s' := by
  intro r hr
  unfold Piped at hc
  rw [hr] at hc
  cases hc

-- A program that reports nothing meets the filing contract as it meets the solo one.
theorem piped_files {p : Worker α} {Q : Except Failure α → PathState → Prop}
    (hp : p.Calls (Piped ·)) (h : Runs w o b p Q s) : Files w o p Q s := by
  exact Program.wp_weaken hp h (fun _ _ hr => hr) (fun _ _ _ _ => trivial)
    fun c i s s' hc _ => piped_guar hc i s s'

theorem deliver_wp {P : PathState → Prop} (r : Report) (hs : P s)
    (hstable : ∀ s s', P s → Undisturbed w s s' → P s')
    (hacc : ∀ s, P s → GivesUp r → Accounted w o s) {Q : Except Failure Unit → PathState → Prop}
    (hQ : ∀ s, P s → Files w o checkpoint Q s) : Files w o (deliver r) Q s := by
  refine Program.wp_call_of hs hstable fun i s h _ _ => ⟨fun r' hr hg => ?_, hQ s h⟩
  cases hr
  exact hacc s h hg

theorem deliver_done {P : PathState → Prop} (r : Report) (hs : P s)
    (hstable : ∀ s s', P s → Undisturbed w s s' → P s') (hacc : ∀ s, P s → Accounted w o s) :
    Files w o (deliver r) (fun _ _ => True) s := by
  refine deliver_wp r hs hstable (fun s h _ => hacc s h) fun s _ => ?_
  exact Program.wp_of_calls (checkpoint_calls (by rfl)) trivial (fun _ _ _ _ => trivial)
    fun c i s hc _ _ _ => ⟨piped_guar hc i s _, trivial⟩

-- How the run of a job can fail before its report.
def Failed (w : String) (o b : Option Bytes) (e : Failure) (s : PathState) : Prop :=
  Reverted w o b s ∨ (e = .os .other ∧ Stranded w o b { blindRollback := true } s) ∨
    (e = .cancelled ∧ Committed w o b { lateCancel := true } s) ∨
    (e = .os .other ∧ Committed w o b { lateFault := true } s)

theorem runEnd_failed {e : Failure} (h : RunEnd w o b (.error e : Except Failure α) s) :
    Failed w o b e s := by
  rcases h with h | h | h
  · exact .inl h
  · exact .inr (.inl h)
  · exact .inr (.inr (.inl h))

theorem commit_wp (hs : Committed w o b {} s) :
    Files w o commit (fun r s => match r with
      | .ok _ => Committed w o b {} s
      | .error e => Failed w o b e s) s := by
  have hstat : Runs w o b (orRaise (act .commit (.stat .source))) (fun r s => match r with
      | .ok _ => Committed w o b {} s
      | .error e => e = .os .other ∧ Committed w o b { lateFault := true } s) s := by
    refine call_wp (Committed w o b {}) hs (fun _ _ h hr => h.loose hr.toLoose) fun i s h => ?_
    obtain ⟨hb, c, hc, hne, hbak, hphase⟩ := id h
    cases hi : i.fault with
    | false =>
      have he : exec ⟨w, .main⟩ ⟨.commit, .stat .source⟩ i s =
          (s.examine w .source, .ok { i.stat with size := c.length }) := by
        simp [exec, hi, PathState.mediaAt, hphase.source]
      have hsaw := h.loose (Calm.examine w w s .source).toLoose
      rw [he]
      exact ⟨hsaw.safe, hsaw⟩
    | true =>
      have he : exec ⟨w, .main⟩ ⟨.commit, .stat .source⟩ i s =
          (s.setNotes w { s.notes w with lateFault := true }, .error .other) := by
        simp [exec, hi, hphase.confirmed]
      have hlate : Committed w o b { lateFault := true }
          (s.setNotes w { s.notes w with lateFault := true }) := by
        refine ⟨hb, c, hc, hne, hbak, hphase.source, rfl, hphase.mutating, hphase.confirmed, ?_⟩
        simp [PathState.setNotes, hphase.notes]
      rw [he]
      exact ⟨hlate.safe, rfl, hlate⟩
  have hcalls : commit.Calls (Piped ·) :=
    (awaiting_calls (by rfl) (orRaise_calls (act_calls (by rfl)))).bind fun _ => trivial
  refine piped_files (b := b) hcalls ?_
  refine Program.wp_seq (R := fun r s => match r with
      | .ok _ => Committed w o b {} s
      | .error e => Failed w o b e s) ?_ (fun _ _ h => h) fun _ _ h => h
  refine Program.wp_seq hstat (fun _ s h => ?_) fun _ _ h => .inr (.inr (.inr h))
  exact Program.wp_seq (checkpoint_committed_wp h) (fun _ _ h => h) fun _ _ h =>
    .inr (.inr (.inl h))

theorem checkpoint_committed_files (hs : Committed w o b {} s) :
    Files w o checkpoint (fun r s => ∀ e, r = .error e → Failed w o b e s) s := by
  refine Program.wp_mono (piped_files (checkpoint_calls (by rfl)) (checkpoint_committed_wp hs))
    fun r s h e hr => ?_
  subst hr
  exact .inr (.inr (.inl h))

-- No transaction is confirmed before the pipeline runs, so an abort found there is not late.
theorem abortRequested_unconfirmed (i : Input) (h : (s.own w).confirmed = false) :
    exec ⟨w, .main⟩ ⟨.processJob, .abortRequested⟩ i s = (s, i.cancelled) := by
  simp [exec, h]

theorem encodeJob_wp (job : AgentJob) (hs : Untouched w o b s) :
    Files w o (encodeJob job) (fun r s => ∀ e, r = .error e → Failed w o b e s) s := by
  refine Program.wp_call_of hs (fun _ _ h hr => h.loose hr.toLoose) fun i s h _ _ => ?_
  refine ⟨piped_guar rfl i s _, ?_⟩
  have hexec := abortRequested_unconfirmed i h.confirmed
  change Files w o (if (exec ⟨w, .main⟩ ⟨.processJob, .abortRequested⟩ i s).2 then _ else _) _
    (exec ⟨w, .main⟩ ⟨.processJob, .abortRequested⟩ i s).1
  rw [hexec]
  split
  · intro e _
    exact .inl (.inl h)
  · have hrun := piped_files (runPipeline_piped job.pipeline) (runPipeline_wp job.pipeline h)
    refine Program.wp_seq hrun (fun result s h => ?_) fun e s h e' he => ?_
    · refine Program.wp_seq (commit_wp h) (fun size s h => ?_) fun e s h e' he => ?_
      · refine deliver_wp _ h (fun _ _ h hr => h.loose hr.toLoose) (fun _ _ hg => ?_)
          fun s h => checkpoint_committed_files h
        cases hg
      · rw [← Except.error.inj he]
        exact h
    · rw [← Except.error.inj he]
      exact runEnd_failed h

theorem deliver_reverted (r : Report) (hs : Reverted w o b s) :
    Files w o (deliver r) (fun _ _ => True) s :=
  deliver_done r hs (fun _ _ h hr => h.calm hr.toCalm) fun _ h => reverted_accounted h

theorem deliver_failed (r : Report) {e : Failure} (he : e ≠ .cancelled)
    (hs : Failed w o b e s) : Files w o (deliver r) (fun _ _ => True) s := by
  rcases hs with h | ⟨-, h⟩ | ⟨hc, -⟩ | ⟨-, h⟩
  · exact deliver_reverted r h
  · exact deliver_done r h (fun _ _ h hr => h.calm hr.toCalm) fun _ h => stranded_accounted h
  · exact absurd hc he
  · exact deliver_done r h (fun _ _ h hr => h.loose hr.toLoose) fun _ h =>
      committed_accounted h rfl (.inr rfl)

theorem committed_aborted (hs : Committed w o b { lateCancel := true } s) :
    Committed w o b { lateCancel := true, lateAbort := true }
      (s.setNotes w { s.notes w with lateAbort := true }) := by
  obtain ⟨hb, c, hc, hne, hbak, hphase⟩ := hs
  refine ⟨hb, c, hc, hne, hbak, hphase.source, rfl, hphase.mutating, hphase.confirmed, ?_⟩
  simp [PathState.setNotes, hphase.notes]

theorem reportAbort_wp (job : AgentJob) (hs : Failed w o b .cancelled s) :
    Files w o (reportFailure job .cancelled) (fun _ _ => True) s := by
  have hcases : Reverted w o b s ∨ Committed w o b { lateCancel := true } s := by
    rcases hs with h | ⟨hc, -⟩ | ⟨-, h⟩ | ⟨hc, -⟩
    · exact .inl h
    · cases hc
    · exact .inr h
    · cases hc
  rcases hcases with h | h
  · refine Program.wp_call_of h (fun _ _ h hr => h.calm hr.toCalm) fun i s h _ _ =>
      ⟨piped_guar rfl i s _, ?_⟩
    have hexec := abortRequested_unconfirmed i h.unconfirmed
    change Files w o (if (exec ⟨w, .main⟩ ⟨.processJob, .abortRequested⟩ i s).2 then _ else _) _
      (exec ⟨w, .main⟩ ⟨.processJob, .abortRequested⟩ i s).1
    rw [hexec]
    split
    · exact deliver_reverted _ h
    · trivial
  · refine Program.wp_call_of h (fun _ _ h hr => h.loose hr.toLoose) fun i s h _ _ =>
      ⟨piped_guar rfl i s _, ?_⟩
    change Files w o (if i.cancelled then _ else _) _
      (exec ⟨w, .main⟩ ⟨.processJob, .abortRequested⟩ i s).1
    split
    · next hi =>
      obtain ⟨_, _, _, _, _, hphase⟩ := id h
      have hexec : (exec ⟨w, .main⟩ ⟨.processJob, .abortRequested⟩ i s).1 =
          s.setNotes w { s.notes w with lateAbort := true } := by
        simp [exec, hi, hphase.confirmed]
      rw [hexec]
      exact deliver_done _ (committed_aborted h) (fun _ _ h hr => h.loose hr.toLoose) fun _ h =>
        committed_accounted h rfl (.inl rfl)
    · trivial

theorem reportFailure_wp (job : AgentJob) (e : Failure) (hs : Failed w o b e s) :
    Files w o (reportFailure job e) (fun _ _ => True) s := by
  cases e with
  | cancelled => exact reportAbort_wp job hs
  | _ => exact deliver_failed _ (by simp) hs

theorem processJob_wp (job : AgentJob) (hs : Untouched w o b s) :
    Files w o (processJob job) (fun _ _ => True) s := by
  refine (Program.wp_rescue ..).mpr (Program.wp_mono (encodeJob_wp job hs) fun r s h => ?_)
  cases r with
  | ok a => trivial
  | error e => exact reportFailure_wp job e (h e rfl)

end Report

def OutcomeAtomic (original : Option Bytes) (es : List PathCall) (s' : PathState) :
    Except Failure PipelineResult → Prop
  | .ok _ => ∃ content ∈ s'.confirmed, s'.source = some content
  | .error _ => (∀ e ∈ es, ¬RestoreFailure e) → s'.source = original

abbrev AgentRun (job : AgentJob) (s : PathState) (es : List PathCall) (rest : Worker Unit)
    (s' : PathState) : Prop :=
  Exec handler ⟨job.pipeline.workerId, .main⟩ (Undisturbed job.pipeline.workerId) (processJob job)
    s es rest s'

section Iff

variable {w : String} {o b : Option Bytes} {es : List PathCall} {s' : PathState}

theorem runEnd_atomic_iff {r : Except Failure PipelineResult} (h : RunEnd w o b r s')
    (hn : s'.notes w = notesOf w es) :
    OutcomeAtomic o es s' r ↔ ∀ e ∈ es, ¬LateCancel w e ∧ ¬BlindRollback e := by
  have hcancel : (s'.notes w).lateCancel = es.any (LateCancel w) := by rw [hn]; rfl
  have hblind : (s'.notes w).blindRollback = es.any BlindRollback := by rw [hn]; rfl
  have hrestore : (s'.notes w).restoreFailed = es.any RestoreFailure := by rw [hn]; rfl
  have hiff : (∀ e ∈ es, ¬LateCancel w e ∧ ¬BlindRollback e) ↔
      (s'.notes w).lateCancel = false ∧ (s'.notes w).blindRollback = false := by
    simp [hcancel, hblind, forall_and]
  have hkept : (∀ e ∈ es, ¬RestoreFailure e) ↔ (s'.notes w).restoreFailed = false := by
    simp [hrestore]
  rw [hiff]
  cases r with
  | ok a =>
    obtain ⟨_, c, hc, _, _, hphase⟩ := h
    simpa [OutcomeAtomic, hphase.notes, hphase.source] using hc
  | error e =>
    simp only [OutcomeAtomic, hkept]
    rcases h with (h | h | ⟨_, _, source, hne, h⟩) | ⟨-, _, _, source, hne, h⟩ |
      ⟨-, _, c, _, hne, _, h⟩
    · simp [h.notes, h.source]
    · simp [h.2.notes, h.2.source]
    · simp [h.notes]
    · simpa [h.notes, h.source] using hne
    · simpa [h.notes, h.source] using hne

end Iff

theorem outcome_atomic_iff {job : AgentJob} {s : PathState}
    (hfresh : Fresh job.pipeline.workerId s) :
    (∀ es rest s' r, PipelineRun job.pipeline s es rest s' → rest.outcome = some r →
      (OutcomeAtomic s.source es s' r ↔
        ∀ e ∈ es, ¬LateCancel job.pipeline.workerId e ∧ ¬BlindRollback e)) ∧
    (∀ es e rest s' r, AgentRun job s (es ++ [e]) rest s' → e.op.action = .report r →
      GivesUp r → (((∀ e' ∈ es, ¬RestoreFailure e') → e.pre.source = s.source) ↔
        ∀ e' ∈ es, ¬LateAbort job.pipeline.workerId e' ∧
          ¬LateFault job.pipeline.workerId e' ∧ ¬BlindRollback e')) := by
  refine ⟨fun es rest s' r hrun hr => ?_, fun es e rest s' r hrun hreport hg => ?_⟩
  · have hend := Exec.outcome_post hrun (runPipeline_wp job.pipeline hfresh.untouched)
      (fun _ _ => trivial) hr
    exact runEnd_atomic_iff hend (exec_notesOf hrun hfresh.notes)
  · obtain ⟨k, s₁, hbefore, hr⟩ := hrun.last
    have hnotes : e.pre.notes job.pipeline.workerId = notesOf job.pipeline.workerId es :=
      hr.notes.trans (exec_notesOf hbefore hfresh.notes)
    have hguar := (Exec.adequate hrun (processJob_wp job hfresh.untouched)
      fun _ _ => trivial).1 e (by simp) r hreport hg
    unfold Accounted at hguar
    rw [hnotes] at hguar
    simpa [notesOf, forall_and] using hguar

section Sample

-- The encode is swapped in while the task is cancelled.
def swapCancelled : List Input :=
  List.replicate 40 allPass ++ { allPass with cancelled := true } :: List.replicate 9 allPass

def swapCancelledRun : DrivenPipeline := (drivePipeline swapCancelled).get (by decide +kernel)

def sampleAgentJob : AgentJob where
  pipeline := sampleJob "a"
  retryCount := 0
  abortMessage := "Worker shut down mid-encode"

def driveAgent (inputs : List Input) : Option (List PathCall × Worker Unit × PathState) :=
  (processJob sampleAgentJob).drive handler ⟨"a", .main⟩ inputs samplePath

-- The same run under the agent, which asked for the cancellation and reports the abort.
def abortedRun : List PathCall × Worker Unit × PathState :=
  (driveAgent (allPass :: swapCancelled ++ [{ allPass with cancelled := true }, allPass])).get
    (by decide +kernel)

def abortReport : PathCall := abortedRun.1.getLast (by decide +kernel)

theorem outcome_atomic_iff_swapCancelled :
    OutcomeAtomic (some [7, 7]) swapCancelledRun.1 swapCancelledRun.2.2 (.error .cancelled) ∧
      abortReport.pre.source = some [7, 7] := by
  have hrun : PipelineRun (sampleJob "a") samplePath swapCancelledRun.1 swapCancelledRun.2.1
      swapCancelledRun.2.2 := drivePipeline_run (Option.some_get _).symm
  have hagent : AgentRun sampleAgentJob samplePath (abortedRun.1.dropLast ++ [abortReport])
      abortedRun.2.1 abortedRun.2.2 := by
    rw [abortReport, List.dropLast_append_getLast]
    exact Exec.drive (Undisturbed.refl "a") (Option.some_get _).symm
  have hfresh : Fresh sampleAgentJob.pipeline.workerId samplePath := ⟨rfl, rfl⟩
  obtain ⟨hpipeline, hreports⟩ := outcome_atomic_iff hfresh
  constructor
  · exact (hpipeline _ _ _ _ hrun (by decide +kernel)).mpr (by decide +kernel)
  · have hreport : abortReport.op.action =
        .report (.failed "job" (.abort "Worker shut down mid-encode") 0) := by decide +kernel
    exact (hreports _ _ _ _ _ hagent hreport rfl).mpr (by decide +kernel) (by decide +kernel)

-- The cancellation lands while the confirmation settles.
def lateCancelled : DrivenPipeline :=
  (drivePipeline (List.replicate 63 allPass ++ { allPass with cancelled := true } ::
    List.replicate 7 allPass)).get (by decide +kernel)

theorem not_outcome_atomic :
    ¬∀ (job : PipelineJob) (s s' : PathState) (es : List PathCall) (rest : Worker PipelineResult)
      (r : Except Failure PipelineResult), Fresh job.workerId s → PipelineRun job s es rest s' →
      rest.outcome = some r → OutcomeAtomic s.source es s' r := by
  intro h
  have hatomic := h (sampleJob "a") samplePath _ _ _ (.error .cancelled) ⟨rfl, rfl⟩
    (drivePipeline_run (r := lateCancelled) (Option.some_get _).symm) (by decide +kernel)
  have hsource : lateCancelled.2.2.source = some [7, 7] := hatomic (by decide +kernel)
  exact absurd hsource (by decide +kernel)

end Sample

end TranscodeForge.Atomicity
