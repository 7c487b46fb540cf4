import TranscodeForge.Scheduler.WellFormed

namespace TranscodeForge.Residue

open Relational Interaction Scheduler Store

-- Nothing of an earlier attempt is on the row.
structure Blank (j : Job) : Prop where
  progress : j.progress = 0
  phase : j.phase = none
  phasePct : j.phasePct = none
  phaseDetail : j.phaseDetail = none
  startedAt : j.startedAt = none
  completedAt : j.completedAt = none

def NoResidue (s : Store) : Prop :=
  ∀ j ∈ s.jobs, j.status.isWaiting = true → Blank j

-- The rows that a statement puts back to waiting.
def PutsBack (s : Store) : Statement → Job → Bool
  | .releaseJobs w => ownedActive w
  | .requeueOrphanActiveJobs minIdle => s.orphaned minIdle
  | .requeueAbandonedActiveJobs grace => s.abandoned grace
  | .updateJob id _ => fun j => j.id == id
  | _ => fun _ => false

-- The columns of an attempt that the statement's SET list leaves out are NULL already.
def LeftOutNull : Statement → Job → Bool
  | .updateJob _ _, j =>
    j.phase.isNone && j.phasePct.isNone && j.phaseDetail.isNone && j.startedAt.isNone &&
      j.completedAt.isNone
  | _, j => j.phasePct.isNone && j.phaseDetail.isNone && j.completedAt.isNone

def Tidy (q : Statement) (s : Store) : Prop :=
  ∀ j ∈ s.jobs.rows, PutsBack s q j = true → LeftOutNull q j = true

instance (q : Statement) (s : Store) : Decidable (Tidy q s) :=
  inferInstanceAs (Decidable (∀ j ∈ s.jobs.rows, PutsBack s q j = true → LeftOutNull q j = true))

section Statements

variable {s : Store} {q : Statement} {j j' : Job}

theorem blank_inserted (draft : Job) (id : Uuid) (now : Instant) :
    Blank (draft.inserted id now) := ⟨rfl, rfl, rfl, rfl, rfl, rfl⟩

theorem blank_released {now : Instant} :
    Blank (j.released now) ↔
      (j.phasePct.isNone && j.phaseDetail.isNone && j.completedAt.isNone) = true := by
  simp only [Bool.and_eq_true, Option.isNone_iff_eq_none]
  constructor
  · intro h
    exact ⟨⟨h.phasePct, h.phaseDetail⟩, h.completedAt⟩
  · rintro ⟨⟨hpct, hdetail⟩, hcompleted⟩
    exact ⟨rfl, rfl, hpct, hdetail, rfl, hcompleted⟩

theorem blank_retried {job : Job} {id : Uuid} {now : Instant} :
    Blank ((retryUpdate job).applyTo now j) ↔
      LeftOutNull (.updateJob id (retryUpdate job)) j = true := by
  simp only [LeftOutNull, Bool.and_eq_true, Option.isNone_iff_eq_none]
  constructor
  · intro h
    have hcompleted : (none <|> j.completedAt) = none := h.completedAt
    exact ⟨⟨⟨⟨h.phase, h.phasePct⟩, h.phaseDetail⟩, h.startedAt⟩, by simpa using hcompleted⟩
  · rintro ⟨⟨⟨⟨hphase, hpct⟩, hdetail⟩, hstarted⟩, hcompleted⟩
    have hcolumn : ((none : Option Instant) <|> j.completedAt) = none := by simpa using hcompleted
    exact ⟨rfl, hphase, hpct, hdetail, hstarted, hcolumn⟩

-- The previous row does not matter: a statement that leaves a job waiting has put it back.
theorem jobStep_blank (h : JobStep s q j j') (hj : j ∈ s.jobs) (hq : q.Proper) (htidy : Tidy q s)
    (hwaiting : j'.status.isWaiting = true) : Blank j' := by
  cases h with
  | claimed => cases hwaiting
  | progressed hp =>
    have hactive := (Bool.and_eq_true_iff.mp hp).2
    change j.status.isWaiting = true at hwaiting
    rcases j.status.waiting_active_terminal with h | h | h <;> simp_all
  | @finalized _ _ _ status =>
    change status.isTerminal = true at hq
    change status.isWaiting = true at hwaiting
    rcases status.waiting_active_terminal with h | h | h <;> simp_all
  | released hp => exact blank_released.mpr (htidy j hj hp)
  | orphaned hp => exact blank_released.mpr (htidy j hj hp)
  | abandoned hp => exact blank_released.mpr (htidy j hj hp)
  | cancelled => cases hwaiting
  | cancelledAll => cases hwaiting
  | updated hid =>
    obtain ⟨job, rfl⟩ := hq
    exact blank_retried.mpr (htidy j hj (by simpa [PutsBack] using hid))

theorem noResidue_next (hs : NoResidue s) (hq : q.Proper) (htidy : Tidy q s) :
    NoResidue (q.next s) := by
  intro j' hj' hwaiting
  have hrow := q.next_row s j'.id
  rw [Table.get?_of_mem hj'] at hrow
  generalize hbefore : s.jobs.get? j'.id = before at hrow
  cases hrow with
  | kept => exact hs j' (Table.get?_mem hbefore) hwaiting
  | inserted => exact blank_inserted ..
  | changed hstep =>
    exact jobStep_blank hstep (Table.get?_mem hbefore) hq htidy hwaiting

theorem mem_updateJobs {p : Job → Bool} {set : Job → Job} {hset : ∀ j, (set j).id = j.id}
    (hj : j ∈ s.jobs) (hp : p j = true) : set j ∈ (s.updateJobs p set hset).jobs := by
  have hrow : (s.updateJobs p set hset).jobs.get? j.id =
      (s.jobs.get? j.id).map fun j => if p j then set j else j := get?_updateJobs p set hset
  rw [Table.get?_of_mem hj, Option.map_some, if_pos hp] at hrow
  exact Table.get?_mem hrow

theorem tidy_of_noResidue (hq : q.Proper) (h : NoResidue (q.next s)) : Tidy q s := by
  intro j hj hback
  cases q with
  | releaseJobs => exact blank_released.mp (h _ (mem_updateJobs hj hback) rfl)
  | requeueOrphanActiveJobs => exact blank_released.mp (h _ (mem_updateJobs hj hback) rfl)
  | requeueAbandonedActiveJobs => exact blank_released.mp (h _ (mem_updateJobs hj hback) rfl)
  | updateJob id u =>
    obtain ⟨job, rfl⟩ := hq
    exact blank_retried.mp (h _ (mem_updateJobs hj hback) rfl)
  | _ => cases hback

end Statements

section Runs

def TidyCall (e : SchedulerCall) : Prop :=
  match e.op with
  | .statement q => Tidy q e.pre
  | _ => True

instance (e : SchedulerCall) : Decidable (TidyCall e) := by
  unfold TidyCall
  split <;> infer_instance

-- The transactions put no job back.
def Forward (q : Statement) : Prop := q.Proper ∧ ∀ s j, PutsBack s q j = false

theorem reportSends_forward {owner claimToken : Option Uuid} {jobId : Uuid}
    {incoming : JobStatus} {q : Statement} (h : ReportSends owner jobId incoming claimToken q)
    (hincoming : incoming.isTerminal = true) : Forward q := by
  refine ⟨h.proper hincoming, fun s j => ?_⟩
  cases q with
  | releaseJobs => exact h.elim
  | requeueOrphanActiveJobs => exact h.elim
  | requeueAbandonedActiveJobs => exact h.elim
  | updateJob => exact h.elim
  | _ => rfl

theorem batch_forward {r : Request} {q : Statement} (h : r.Sends q) (hr : r.isBatch = true) :
    Forward q := by
  refine ⟨Request.Sends.proper h, fun s j => ?_⟩
  cases r with
  | queueFiles => cases q <;> first | rfl | exact h.elim
  | clearCompleted => cases q <;> first | rfl | exact h.elim
  | reset => cases q <;> first | rfl | exact h.elim
  | _ => cases hr

theorem block_forward {r : Request} {p : Block Bool} (h : r.Performs (.reportBlock p)) :
    p.Calls Forward := by
  have hdoes : p.Calls r.Sends := h.does
  refine hdoes.mono fun q hq => ?_
  obtain ⟨block, job, hblock, -, -, -⟩ := h
  cases r with
  | complete => exact reportSends_forward hq rfl
  | skipped => exact reportSends_forward hq rfl
  | failed => exact reportSends_forward hq rfl
  | _ => cases hblock

theorem tidy_of_forward {q : Statement} {s : Store} (h : Forward q) : Tidy q s := by
  intro j _ hback
  rw [h.2 s j] at hback
  cases hback

theorem noResidue_exec {r : Request} {op : Op} {s : Store} (hop : r.Performs op)
    (hs : NoResidue s) (htidy : ∀ q, op = .statement q → Tidy q s) :
    NoResidue (op.exec s).1 := by
  have hforward : ∀ (q : Statement) (s : Store), Forward q → NoResidue s → NoResidue (q.next s) :=
    fun q s hq hs => noResidue_next hs hq.1 (tidy_of_forward hq)
  cases op with
  | statement q => exact noResidue_next hs (Request.Sends.proper hop) (htidy q rfl)
  | reportBlock p =>
    have hdoes : (Op.reportBlock p).Does Forward := block_forward hop
    exact Op.exec_keeps hdoes hs hforward
  | batchBlock p =>
    have hdoes : (Op.batchBlock p).Does Forward := hop.2.mono fun q hq => batch_forward hq hop.1
    exact Op.exec_keeps hdoes hs hforward

variable {mode : Isolation} {s : Store} {es : List SchedulerCall} {d : SchedulerConfig}

theorem noResidue_of_tidy (hs : NoResidue s) (h : SchedulerRun mode s es d)
    (htidy : ∀ e ∈ es, TidyCall e) : (∀ e ∈ es, NoResidue e.pre) ∧ NoResidue d.state := by
  refine Run.invariant (A := fun e => e.request.Performs e.op ∧ TidyCall e) h
    (fun e he => ⟨SchedulerRun.performs h e he, htidy e he⟩) hs ?_ (fun _ _ hs => hs) ?_
  · intro t r s s' hs hstart
    rw [start_state hstart]
    exact hs
  · rintro t r op i s hs ⟨hperforms, hcall⟩
    exact noResidue_exec hperforms hs fun q hq => by
      subst hq
      exact hcall

-- A waiting job carries nothing of an earlier attempt in any state of a run exactly when
-- every statement that puts a job back finds NULL in the columns it leaves out.
theorem no_residue_iff (hs : NoResidue s) (h : SchedulerRun mode s es d) :
    (∀ e ∈ es, NoResidue e.pre ∧ NoResidue e.post) ∧ NoResidue d.state ↔
      ∀ e ∈ es, TidyCall e := by
  have hperforms := SchedulerRun.performs h
  have hpost := SchedulerRun.post h
  constructor
  · rintro ⟨hclean, -⟩ e he
    obtain ⟨⟨op, i, pre, post⟩, t, r⟩ := e
    have hafter := (hclean _ he).2
    rw [hpost _ he] at hafter
    cases op with
    | statement q => exact tidy_of_noResidue (Request.Sends.proper (hperforms _ he)) hafter
    | reportBlock p => trivial
    | batchBlock p => trivial
  · intro htidy
    obtain ⟨hpre, hlast⟩ := noResidue_of_tidy hs h htidy
    refine ⟨fun e he => ⟨hpre e he, ?_⟩, hlast⟩
    rw [hpost e he]
    refine noResidue_exec (hperforms e he) (hpre e he) fun q hq => ?_
    have hcall := htidy e he
    rw [TidyCall, hq] at hcall
    exact hcall

end Runs

section Sample

theorem sampleRunning_noResidue : NoResidue sampleRunning := by
  have hrunning : ∀ j ∈ sampleRunning.jobs.rows, j.status.isWaiting = false := by decide +kernel
  intro j hj hwaiting
  rw [hrunning j hj] at hwaiting
  cases hwaiting

-- The worker reports a phase without a fraction and is taken for dead afterwards.
def swept (body : ProgressRequest) : Option Played :=
  play .shared sampleRunning (.start 0 (.progress sampleToken 0 body) :: calls 0 2 ++
    .disturb (seconds 700) :: .start 1 (.staleWorkers (seconds 90)) :: calls 1 1 ++
    .start 2 .orphanRequeue :: calls 2 1)

def verifying : ProgressRequest :=
  { claimToken := some 2, progress := 1 / 2, phase := some "verify" }

def gauging : ProgressRequest :=
  { claimToken := some 2, progress := 1, phase := some "gauge", phasePct := some (1 / 2) }

def sweptVerifying : Played := (swept verifying).get (by decide +kernel)

theorem no_residue_iff_sweptVerifying :
    ((∀ e ∈ sweptVerifying.1, NoResidue e.pre ∧ NoResidue e.post) ∧
      NoResidue sweptVerifying.2.state) ∧
    (sweptVerifying.2.state.jobs.get? 0).map (fun j => (j.status, j.phase)) =
      some (.queued, none) := by
  have hrun := play_run (p := sweptVerifying) (Option.some_get _).symm
  have htidy : ∀ e ∈ sweptVerifying.1, TidyCall e := by decide +kernel
  exact ⟨(no_residue_iff sampleRunning_noResidue hrun).mpr htidy, by decide +kernel⟩

def sweptGauging : Played := (swept gauging).get (by decide +kernel)

theorem not_no_residue :
    ¬∀ (mode : Isolation) (s : Store) (es : List SchedulerCall) (d : SchedulerConfig),
      NoResidue s → SchedulerRun mode s es d → NoResidue d.state := by
  intro h
  have hrun := play_run (p := sweptGauging) (Option.some_get _).symm
  have hclean := h _ _ _ _ sampleRunning_noResidue hrun
  have hleft : ∃ j ∈ sweptGauging.2.state.jobs.rows, j.status.isWaiting = true ∧
      j.phasePct = some (1 / 2) := by decide +kernel
  obtain ⟨j, hj, hwaiting, hpct⟩ := hleft
  have hnull := (hclean j hj hwaiting).phasePct
  rw [hpct] at hnull
  cases hnull

end Sample

end TranscodeForge.Residue
