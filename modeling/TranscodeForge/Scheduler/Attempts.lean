import TranscodeForge.Interaction.History
import TranscodeForge.Scheduler.WellFormed

namespace TranscodeForge.Attempts

open Relational Interaction Scheduler Store

structure Report where
  owner : Option Uuid
  jobId : Uuid
  claimToken : Option Uuid
deriving DecidableEq

def report? : Request → Option Report
  | .checkDerivative token jobId _ claimToken => some ⟨token.workerId, jobId, claimToken⟩
  | .progress token jobId body => some ⟨token.workerId, jobId, body.claimToken⟩
  | .complete token jobId body => some ⟨token.workerId, jobId, body.claimToken⟩
  | .skipped token jobId body => some ⟨token.workerId, jobId, body.claimToken⟩
  | .failed token jobId body => some ⟨token.workerId, jobId, body.claimToken⟩
  | _ => none

def RunsAttempt (s : Store) (jobId attempt : Uuid) : Prop :=
  ∃ j, s.jobs.get? jobId = some j ∧ j.status.isActive = true ∧ j.claimToken = some attempt

-- The attempt has ended, and nothing has taken the job up since.
def Concluded (s : Store) (jobId attempt : Uuid) : Prop :=
  ∃ j, s.jobs.get? jobId = some j ∧ j.status.isTerminal = true ∧ j.claimToken = some attempt

section JobRow

variable {s : Store} {r : Request} {rep : Report} {attempt : Uuid}

theorem report_sends {q : Statement} (hrep : report? r = some rep) (hq : r.Sends q)
    (hwrites : q.writesJobs = true) :
    (∃ w status fields, q = .finalizeJob rep.jobId w status rep.claimToken fields) ∨
      ∃ w fields, q = .reportProgress rep.jobId w rep.claimToken fields := by
  have hterminal : ∀ {owner incoming}, ReportSends owner rep.jobId incoming rep.claimToken q →
      ∃ w status fields, q = .finalizeJob rep.jobId w status rep.claimToken fields := by
    intro owner incoming h
    cases q with
    | finalizeJob =>
      obtain ⟨rfl, -, -, rfl⟩ := h
      exact ⟨_, _, _, rfl⟩
    | _ => first | exact h.elim | cases hwrites
  cases r with
  | checkDerivative =>
    cases hrep
    exact .inl (hterminal hq.1)
  | complete =>
    cases hrep
    exact .inl (hterminal hq)
  | skipped =>
    cases hrep
    exact .inl (hterminal hq)
  | failed =>
    cases hrep
    exact .inl (hterminal hq)
  | progress =>
    cases hrep
    cases q with
    | reportProgress =>
      obtain ⟨rfl, -, rfl⟩ := hq
      exact .inr ⟨_, _, rfl⟩
    | _ => first | exact hq.elim | cases hwrites
  | _ => cases hrep

theorem runs_of_finalizable (hs : s.WellFormed) {jobId : Uuid} {w : Option Uuid} {j : Job}
    (hj : s.jobs.get? jobId = some j) (h : finalizable jobId w (some attempt) j = true) :
    RunsAttempt s jobId attempt := by
  have htoken := heldBy_token (Bool.and_eq_true_iff.mp h).1
  exact ⟨j, hj, hs.active_of_token hj htoken (finalizable_open h), htoken⟩

theorem report_statement (hs : s.WellFormed) (hrep : report? r = some rep)
    (hattempt : rep.claimToken = some attempt) {q : Statement} (hq : r.Sends q)
    (hne : (q.next s).jobs ≠ s.jobs) : RunsAttempt s rep.jobId attempt := by
  cases hwrites : q.writesJobs with
  | false => exact absurd (Statement.jobs_eq hwrites s) hne
  | true =>
    rcases report_sends hrep hq hwrites with ⟨w, status, fields, rfl⟩ | ⟨w, fields, rfl⟩
    · rw [hattempt] at hne
      rcases finalizeJob_cases s rep.jobId w status (some attempt) fields with h | ⟨-, j, hj, hp, -⟩
      · exact absurd (congrArg (Store.jobs ∘ Prod.fst) h) hne
      · exact runs_of_finalizable hs hj hp
    · rw [hattempt] at hne
      rcases reportProgress_cases s rep.jobId w (some attempt) fields with h | ⟨j, hj, hp⟩
      · exact absurd (congrArg (Store.jobs ∘ Prod.fst) h) hne
      · have hheld := Bool.and_eq_true_iff.mp hp
        exact ⟨j, hj, hheld.2, heldBy_token hheld.1⟩

-- A report with a claim token changes the jobs table only while its attempt is running.
theorem report_jobs (hs : s.WellFormed) (hrep : report? r = some rep)
    (hattempt : rep.claimToken = some attempt) {op : Op} (hop : r.Performs op)
    (hne : (op.exec s).1.jobs ≠ s.jobs) : RunsAttempt s rep.jobId attempt := by
  let Respects (s s' : Store) : Prop := s.WellFormed →
    s'.WellFormed ∧ (s'.jobs ≠ s.jobs → RunsAttempt s rep.jobId attempt)
  have hrespects : Respects s (op.exec s).1 := by
    refine Op.exec_rel (R := Respects) (fun s hs => ⟨hs, fun h => absurd rfl h⟩) ?_ hop.does
      (fun q s hq hs => ⟨hs.next hq.proper, report_statement hs hrep hattempt hq⟩) s
    intro s₁ s₂ s₃ h₁₂ h₂₃ hs₁
    obtain ⟨hs₂, hchange₁₂⟩ := h₁₂ hs₁
    obtain ⟨hs₃, hchange₂₃⟩ := h₂₃ hs₂
    refine ⟨hs₃, fun hne => ?_⟩
    by_cases hsame : s₂.jobs = s₁.jobs
    · obtain ⟨j, hj, hruns⟩ := hchange₂₃ (hsame ▸ hne)
      exact ⟨j, hsame ▸ hj, hruns⟩
    · exact hchange₁₂ hsame
  exact (hrespects hs).2 hne

end JobRow

section Reopening

-- The statements that leave a finished job as it is.
def Spares (jobId : Uuid) : Statement → Prop
  | .updateJob id _ => id ≠ jobId
  | .deleteJobRows ids => jobId ∉ ids
  | _ => True

abbrev SchedulerEntry := Entry Nat Op Store Unit

def Reopens (jobId : Uuid) (e : SchedulerEntry) : Prop := ¬e.op.Does (Spares jobId)

def Finalizes (t : Nat) (jobId : Uuid) (e : SchedulerEntry) : Prop :=
  e.thread = t ∧ ∃ w status token fields, e.op = .statement (.finalizeJob jobId w status token fields)

theorem Concluded.next {s : Store} {jobId attempt : Uuid} (h : Concluded s jobId attempt)
    {q : Statement} (hq : Spares jobId q) : Concluded (q.next s) jobId attempt := by
  obtain ⟨j, hj, hterminal, htoken⟩ := h
  have hrow := q.next_row s jobId
  rw [hj] at hrow
  generalize hafter : (q.next s).jobs.get? jobId = after at hrow
  cases hrow with
  | kept => exact ⟨j, hafter, hterminal, htoken⟩
  | deleted heq hmem =>
    subst heq
    exact absurd hmem hq
  | changed hstep =>
    obtain ⟨u, rfl⟩ := hstep.terminal hterminal
    exact absurd (Table.get?_key hj) hq

def StillConcluded (t : Nat) (jobId attempt : Uuid) (x : Traced Nat Op Store Unit) : Prop :=
  ClearSince (Finalizes t jobId) (Reopens jobId) x.2 → Concluded x.1 jobId attempt

end Reopening

section Blocks

variable {α β : Type}

theorem commit_bind (p : Block α) (f : α → Block β) (s : Store) :
    Block.commit (p.bind f) s = Block.commit (f (Block.commit p s).2) (Block.commit p s).1 := by
  induction p generalizing s with
  | ret a => rfl
  | raise e => exact e.elim
  | call q k ih => exact ih _ _

theorem commit_finalizing (jobId : Uuid) (job : Job) (incoming : JobStatus)
    (claimToken : Option Uuid) (fields : Instant → JobFields) (sync : Block Unit) (s : Store) :
    Block.commit (finalizing jobId job incoming claimToken fields sync) s =
      if (s.finalizeJob jobId job.workerId incoming claimToken (fields s.now)).2 then
        ((Block.commit sync
          (s.finalizeJob jobId job.workerId incoming claimToken (fields s.now)).1).1, true)
      else ((s.finalizeJob jobId job.workerId incoming claimToken (fields s.now)).1, false) := by
  change Block.commit (if (s.finalizeJob jobId job.workerId incoming claimToken
      (fields s.now)).2 then sync.bind fun _ => .ret true else .ret false) _ = _
  split
  · exact commit_bind sync _ _
  · rfl

end Blocks

section Catalog

variable {mode : Isolation}

def Catalogs (op : Op) : Prop := ∃ q, op = .statement q ∧ q.writesMedia = true

-- The condition on a call: where a report writes to the catalog in a statement of its own, no
-- statement has taken its job up or away since it ended the job.
def Settled (t : Nat) (r : Request) (op : Op) (h : List SchedulerEntry) : Prop :=
  ∀ rep, report? r = some rep → Catalogs op →
    ClearSince (Finalizes t rep.jobId) (Reopens rep.jobId) h

def Admitted (t : Nat) (r : Request) (op : Op) (_ : Unit) (x : Traced Nat Op Store Unit) : Prop :=
  r.Performs op ∧ x.1.WellFormed ∧ Settled t r op x.2

def Checked (mode : Isolation) (_ : Nat) (r : Request) (op : Op) (_ : Unit)
    (x : Traced Nat Op Store Unit) : Prop :=
  ∀ rep attempt, report? r = some rep → rep.claimToken = some attempt →
    (op.exec x.1).1.media ≠ x.1.media →
      RunsAttempt x.1 rep.jobId attempt ∨ mode = .shared ∧ Concluded x.1 rep.jobId attempt

abbrev auditing (mode : Isolation) (t : Nat) (r : Request) :
    Contract Op (Traced Nat Op Store Unit) Unit :=
  (scheduler mode).audit Admitted (Checked mode) t r

def Silent (op : Op) : Prop := ∃ q, op = .statement q ∧ q.writesMedia = false

theorem Silent.checked {op : Op} (h : Silent op) (t : Nat) (r : Request)
    (x : Traced Nat Op Store Unit) : Checked mode t r op () x := by
  obtain ⟨q, rfl, hq⟩ := h
  exact fun _ _ _ _ hne => absurd (Statement.media_eq hq x.1) hne

theorem stillConcluded_stable (t : Nat) (jobId attempt : Uuid) :
    (scheduler mode).Stable Admitted t (StillConcluded t jobId attempt) where
  call t' r' op i y hne hallow hy hclear := by
    have hother : ¬Finalizes t jobId ⟨⟨op, i, y.1, (op.exec y.1).1⟩, t'⟩ := fun h => hne h.1
    obtain ⟨hbefore, hspares⟩ := ClearSince.of_append hother hclear
    exact Op.exec_keeps (P := fun s => Concluded s jobId attempt) (not_not.mp hspares) (hy hbefore)
      fun q s hq hs => hs.next hq
  start t' r' s' y hs hy := by
    rw [start_state hs]
    exact hy
  disturb k y hy hclear := hy hclear

theorem silent_wp {ε α : Type} {t : Nat} {r : Request} {p : Program Op Op.Answer ε α}
    {x : Traced Nat Op Store Unit} (hp : p.Calls Silent) :
    p.wp (scheduler mode).traced t (auditing mode t r) (fun _ _ => True) x :=
  System.wp_audit_of_calls (A := Silent) hp fun _ _ y hop _ => hop.checked t r y

theorem requireOwnedJob_only {A : Op → Prop} (owner : Option Uuid) {jobId : Uuid}
    (hA : A (.statement (.getJob jobId))) : (requireOwnedJob owner jobId).Calls A := by
  refine ⟨hA, fun row => ?_⟩
  cases row with
  | none => trivial
  | some job =>
    simp only [Program.ret_bind]
    split <;> trivial

theorem lost_silent (won : Bool) (jobId : Uuid) (incoming : JobStatus) :
    (if won then .ret .noContent
      else do
        answerLostFinalize jobId incoming
        .ret .noContent : Route Response).Calls Silent := by
  cases won with
  | true => trivial
  | false => exact calls_answerLostFinalize ⟨_, rfl, rfl⟩ fun _ => trivial

theorem spares_of_jobs {q : Statement} (h : q.writesJobs = false) (jobId : Uuid) :
    Spares jobId q := by
  cases q <;> trivial

def Syncs (q : Statement) : Prop := q.writesJobs = false

-- The rest of a report's block once its transition was won.
theorem sync_wp {t : Nat} {r : Request} {rep : Report} {attempt : Uuid} {p : Block Bool}
    {x : Traced Nat Op Store Unit} (hrep : report? r = some rep)
    (hattempt : rep.claimToken = some attempt) (hp : p.Calls Syncs)
    (hx : StillConcluded t rep.jobId attempt x) :
    (Block.interleaved p : Route Bool).wp (scheduler .shared).traced t (auditing .shared t r)
      (fun _ _ => True) x := by
  refine Program.wp_mono (Program.wp_of_calls (A := fun op => ∃ q, op = .statement q ∧ Syncs q)
    (P := StillConcluded t rep.jobId attempt) (calls_interleaved hp fun q hq => ⟨q, rfl, hq⟩) hx
    (fun _ _ hy hr => (stillConcluded_stable t rep.jobId attempt).keeps hy hr) ?_)
    fun _ _ _ => trivial
  rintro op i y ⟨q, rfl, hq⟩ hy - ⟨-, -, hsettled⟩
  constructor
  · intro rep' attempt' hrep' hattempt' hne
    cases hrep.symm.trans hrep'
    cases hattempt.symm.trans hattempt'
    have hwrites : q.writesMedia = true := by
      cases hm : q.writesMedia with
      | true => rfl
      | false => exact absurd (Statement.media_eq hm y.1) hne
    exact .inr ⟨rfl, hy (hsettled rep hrep ⟨q, rfl, hwrites⟩)⟩
  · intro hclear
    have hown : ¬Finalizes t rep.jobId ⟨⟨.statement q, i, y.1, (Op.exec y.1 (.statement q)).1⟩, t⟩ := by
      rintro ⟨-, w, status, token, fields, heq⟩
      cases heq
      cases hq
    exact (hy (ClearSince.of_append hown hclear).1).next (spares_of_jobs hq _)

section Transaction

variable {t : Nat} {r : Request} {rep : Report} {attempt : Uuid} {job : Job}
  {incoming : JobStatus} {fields : Instant → JobFields} {sync : Block Unit}
  {x : Traced Nat Op Store Unit}

theorem finalizing_isolated_wp (hrep : report? r = some rep)
    (hattempt : rep.claimToken = some attempt) :
    (reportTransaction .isolated
      (finalizing rep.jobId job incoming (some attempt) fields sync)).wp
      (scheduler .isolated).traced t (auditing .isolated t r) (fun _ _ => True) x := by
  refine System.wp_audit (System.Stable.true t) trivial fun i y _ hallow => ⟨?_, trivial⟩
  intro rep' attempt' hrep' hattempt' hne
  cases hrep.symm.trans hrep'
  cases hattempt.symm.trans hattempt'
  rcases finalizeJob_cases y.1 rep.jobId job.workerId incoming (some attempt) (fields y.1.now) with
    hlost | ⟨-, j, hj, hp, -⟩
  · have hcommit := commit_finalizing rep.jobId job incoming (some attempt) fields sync y.1
    rw [hlost] at hcommit
    exact absurd (congrArg (Store.media ∘ Prod.fst) hcommit) hne
  · exact .inl (runs_of_finalizable hallow.2.1 hj hp)

theorem finalizing_shared_wp (hrep : report? r = some rep)
    (hattempt : rep.claimToken = some attempt) (hincoming : incoming.isTerminal = true)
    (hsync : sync.Calls Syncs) :
    (reportTransaction .shared
      (finalizing rep.jobId job incoming (some attempt) fields sync)).wp
      (scheduler .shared).traced t (auditing .shared t r) (fun _ _ => True) x := by
  have hfinalize : ∀ w now, Silent (.statement
      (.finalizeJob rep.jobId w incoming (some attempt) (fields now))) :=
    fun w now => ⟨_, rfl, rfl⟩
  refine System.wp_audit (System.Stable.true t) trivial fun i y _ _ =>
    ⟨Silent.checked ⟨_, rfl, rfl⟩ t r y, ?_⟩
  refine System.wp_audit (System.Stable.true t) trivial fun i z _ _ =>
    ⟨(hfinalize _ _).checked t r z, ?_⟩
  change (Block.interleaved (if (z.1.finalizeJob rep.jobId job.workerId incoming (some attempt)
    (fields y.1.now)).2 = true then sync.bind fun _ => .ret true else .ret false) :
      Route Bool).wp _ _ _ _ _
  rcases finalizeJob_cases z.1 rep.jobId job.workerId incoming (some attempt) (fields y.1.now) with
    hlost | ⟨hwon, j, hj, hp, hrow⟩
  · rw [congrArg Prod.snd hlost]
    trivial
  · rw [if_pos hwon]
    have htoken := heldBy_token (Bool.and_eq_true_iff.mp hp).1
    exact sync_wp hrep hattempt (hsync.bind fun _ => trivial) fun _ =>
      ⟨_, hrow, hincoming, htoken⟩

theorem terminalReport_wp {token : WorkerToken} {block : Job → Option Uuid → Block Bool}
    (hrep : report? r = some rep) (hattempt : rep.claimToken = some attempt)
    (hincoming : incoming.isTerminal = true)
    (hblock : ∀ job, ∃ fields sync, sync.Calls Syncs ∧
      block job (some attempt) = finalizing rep.jobId job incoming (some attempt) fields sync) :
    (terminalReport mode token rep.jobId incoming (some attempt) block).wp
      (scheduler mode).traced t (auditing mode t r) (fun _ _ => True) x := by
  refine Program.wp_seq (R := fun _ _ => True) (silent_wp (requireOwnedJob_only _ ⟨_, rfl, rfl⟩))
    (fun job y _ => ?_) fun _ _ _ => trivial
  cases isDuplicateTerminalReport job incoming with
  | error e => trivial
  | ok duplicate =>
    cases duplicate with
    | true => trivial
    | false =>
      obtain ⟨fields, sync, hsync, heq⟩ := hblock job
      change (Program.bind (reportTransaction mode (block job (some attempt))) _).wp _ _ _ _ _
      refine Program.wp_seq (R := fun _ _ => True) ?_ (fun won z _ => silent_wp (lost_silent ..))
        fun _ _ _ => trivial
      rw [heq]
      cases mode with
      | isolated => exact finalizing_isolated_wp hrep hattempt
      | shared => exact finalizing_shared_wp hrep hattempt hincoming hsync

end Transaction

theorem checkDerivative_silent {token : WorkerToken} {jobId : Uuid} {key : String}
    {claimToken : Option Uuid} {op : Op}
    (h : Request.Performs (.checkDerivative token jobId key claimToken) op) : Silent op := by
  cases op with
  | statement q =>
    refine ⟨q, rfl, ?_⟩
    cases q <;> first | rfl | exact h.1.elim | exact h.2.elim
  | reportBlock p =>
    obtain ⟨_, _, hblock, -⟩ := h
    cases hblock
  | batchBlock p => cases h.1

theorem progress_silent {token : WorkerToken} {jobId : Uuid} {body : ProgressRequest} {op : Op}
    (h : Request.Performs (.progress token jobId body) op) : Silent op := by
  cases op with
  | statement q =>
    refine ⟨q, rfl, ?_⟩
    cases q <;> first | rfl | exact h.elim
  | reportBlock p =>
    obtain ⟨_, _, hblock, -⟩ := h
    cases hblock
  | batchBlock p => cases h.1

theorem updateOutputByJob_syncs (jobId : Uuid) (codec : String) (size : Nat) (height : Option Nat) :
    (updateOutputByJob jobId codec size height).Calls Syncs := by
  cases height with
  | none => exact ⟨rfl, fun _ => trivial⟩
  | some h => exact calls_ask rfl fun rows => Program.Calls.each fun m _ => ⟨rfl, fun _ => trivial⟩

theorem request_wp (mode : Isolation) (t : Nat) (r : Request) (x : Traced Nat Op Store Unit) :
    (r.body mode).wp (scheduler mode).traced t (auditing mode t r) (fun _ _ => True) x := by
  have hother : (∀ rep attempt, report? r = some rep → rep.claimToken ≠ some attempt) →
      (r.body mode).wp (scheduler mode).traced t (auditing mode t r) (fun _ _ => True) x :=
    fun hnone => System.wp_audit_of_calls (A := fun _ => True)
      ((r.body_calls mode).mono fun _ _ => trivial)
      fun _ _ _ _ _ rep attempt hrep hattempt => absurd hattempt (hnone rep attempt hrep)
  cases r with
  | checkDerivative token jobId key claimToken =>
    exact silent_wp (checkDerivative_calls.mono fun _ => checkDerivative_silent)
  | progress token jobId body => exact silent_wp (progress_calls.mono fun _ => progress_silent)
  | complete token jobId body =>
    cases hattempt : body.claimToken with
    | none =>
      refine hother fun rep attempt hrep => ?_
      cases hrep
      simp [hattempt]
    | some attempt =>
      change (terminalReport mode token jobId .complete body.claimToken _).wp _ _ _ _ _
      rw [hattempt]
      have hrep : report? (.complete token jobId body) =
          some ⟨token.workerId, jobId, some attempt⟩ := by
        rw [report?, hattempt]
      refine terminalReport_wp hrep rfl rfl fun job => ⟨_, _, ?_, rfl⟩
      exact calls_ask rfl fun _ => updateOutputByJob_syncs ..
  | skipped token jobId body =>
    cases hattempt : body.claimToken with
    | none =>
      refine hother fun rep attempt hrep => ?_
      cases hrep
      simp [hattempt]
    | some attempt =>
      change (terminalReport mode token jobId .skipped body.claimToken _).wp _ _ _ _ _
      rw [hattempt]
      have hrep : report? (.skipped token jobId body) =
          some ⟨token.workerId, jobId, some attempt⟩ := by
        rw [report?, hattempt]
      refine terminalReport_wp hrep rfl rfl fun job => ⟨_, _, ?_, rfl⟩
      exact calls_ask rfl fun _ => ⟨rfl, fun _ => trivial⟩
  | failed token jobId body =>
    cases hattempt : body.claimToken with
    | none =>
      refine hother fun rep attempt hrep => ?_
      cases hrep
      simp [hattempt]
    | some attempt =>
      change (terminalReport mode token jobId .failed body.claimToken _).wp _ _ _ _ _
      rw [hattempt]
      have hrep : report? (.failed token jobId body) =
          some ⟨token.workerId, jobId, some attempt⟩ := by
        rw [report?, hattempt]
      refine terminalReport_wp hrep rfl rfl fun job => ⟨_, _, ?_, rfl⟩
      exact ⟨rfl, fun _ => trivial⟩
  | _ => exact hother fun _ _ h => (by cases h)

end Catalog

section WithoutToken

variable {mode : Isolation} {w : Uuid}

def Advertises (w : Uuid) (s : Store) : Prop :=
  ∃ row, s.workers.get? w = some row ∧ row.sendsClaimToken = true

-- A registration of the worker that advertises the claim token, if the call is one.
def RegistersSender (w : Uuid) (op : Op) : Prop :=
  ∀ row, op = .statement (.upsertWorker row) → row.id = w → row.sendsClaimToken = true

theorem advertises_updateWorkers {s : Store} {p : Worker → Bool} {set : Worker → Worker}
    {hset : ∀ w, (set w).id = w.id} (h : Advertises w s)
    (hkeeps : ∀ row, (set row).sendsClaimToken = row.sendsClaimToken) :
    Advertises w (s.updateWorkers p set hset) := by
  obtain ⟨row, hrow, hsends⟩ := h
  have hlook : (s.updateWorkers p set hset).workers.get? w =
      (s.workers.get? w).map fun r => if p r then set r else r :=
    Table.get?_update s.workers p set hset w
  refine ⟨if p row then set row else row, by rw [hlook, hrow, Option.map_some], ?_⟩
  split
  · rw [hkeeps, hsends]
  · exact hsends

theorem Advertises.statement {s : Store} {q : Statement} (h : Advertises w s)
    (hq : RegistersSender w (.statement q)) : Advertises w (q.next s) := by
  obtain ⟨old, hold, hsends⟩ := h
  cases hwrites : q.writesWorkers with
  | false => exact ⟨old, (Statement.workers_eq hwrites s).symm ▸ hold, hsends⟩
  | true =>
    cases q with
    | upsertWorker row =>
      have hlook : ((Statement.upsertWorker row).next s).workers.get? w =
          if row.id = w then
            some (((s.workers.get? w).map (s.refreshedWorker row)).getD (s.stampedWorker row))
          else s.workers.get? w := Table.get?_upsert s.workers (s.stampedWorker row) _ _ w
      rw [hold] at hlook
      split at hlook
      · next hid => exact ⟨_, hlook, hq row rfl hid⟩
      · exact ⟨old, hlook, hsends⟩
    | updateWorkerHeartbeat => exact advertises_updateWorkers ⟨old, hold, hsends⟩ fun _ => rfl
    | cleanupStaleWorkers => exact advertises_updateWorkers ⟨old, hold, hsends⟩ fun _ => rfl
    | _ => cases hwrites

theorem block_workers {r : Request} {op : Op} (h : r.Performs op)
    (hblock : ∀ q, op ≠ .statement q) : op.Does fun q => q.writesWorkers = false := by
  refine (h.does).mono fun q hq => ?_
  have hkind : r.isBatch = true ∨ r.outcomeBlock ≠ none := by
    cases op with
    | statement q => exact absurd rfl (hblock q)
    | reportBlock p =>
      obtain ⟨block, _, heq, -⟩ := h
      exact .inr (by rw [heq]; exact fun h => (by cases h))
    | batchBlock p => exact .inl h.1
  cases r with
  | complete => cases q <;> first | rfl | exact hq.elim
  | skipped => cases q <;> first | rfl | exact hq.elim
  | failed => cases q <;> first | rfl | exact hq.elim
  | queueFiles => cases q <;> first | rfl | exact hq.elim
  | clearCompleted => cases q <;> first | rfl | exact hq.elim
  | reset => cases q <;> first | rfl | exact hq.elim
  | _ => rcases hkind with h | h <;> first | cases h | exact absurd rfl h

theorem Advertises.exec {s : Store} {r : Request} {op : Op} (h : Advertises w s)
    (hop : r.Performs op) (hregisters : RegistersSender w op) : Advertises w (op.exec s).1 := by
  have hblock : (∀ q, op ≠ .statement q) → Advertises w (op.exec s).1 := fun hne =>
    Op.exec_keeps (P := Advertises w) (block_workers hop hne) h fun q s hq hs =>
      hs.statement fun row heq => by
        cases heq
        cases hq
  cases op with
  | statement q => exact h.statement hregisters
  | reportBlock p => exact hblock fun _ h => (by cases h)
  | batchBlock p => exact hblock fun _ h => (by cases h)

def Reads (op : Op) : Prop := ∃ q, op = .statement q ∧ q.writesJobs = false ∧ q.writesMedia = false

abbrev senderAudit (mode : Isolation) (w : Uuid) (t : Nat) (r : Request) :
    Contract Op (Traced Nat Op Store Unit) Unit :=
  (scheduler mode).audit (fun _ _ _ _ x => Advertises w x.1)
    (fun _ r op _ _ => ∀ rep, report? r = some rep → rep.claimToken = none →
      rep.owner = some w → Reads op) t r

variable {t : Nat} {r : Request} {x : Traced Nat Op Store Unit} {ε α : Type}

theorem reads_wp {p : Program Op Op.Answer ε α} (hp : p.Calls Reads) :
    p.wp (scheduler mode).traced t (senderAudit mode w t r) (fun _ _ => True) x :=
  System.wp_audit_of_calls (A := Reads) hp fun _ _ _ hop _ _ _ _ _ => hop

theorem requireClaimToken_refuses :
    (requireClaimToken (some w) none).wp (scheduler mode).traced t (senderAudit mode w t r)
      (fun o _ => ∃ e, o = .error e) x := by
  refine System.wp_audit (System.Stable.true t) trivial fun i y _ hallow =>
    ⟨fun _ _ _ _ => ⟨_, rfl, rfl, rfl⟩, ?_⟩
  obtain ⟨row, hrow, hsends⟩ := hallow
  have hsender : ((y.1.workers.get? w).any fun row => row.sendsClaimToken) = true := by
    rw [hrow, Option.any_some, hsends]
  change (if ((y.1.workers.get? w).any fun row => row.sendsClaimToken) = true then .raise _
    else .ret none : Route (Option Uuid)).wp _ _ _ _ _
  rw [if_pos hsender]
  exact ⟨_, rfl⟩

theorem refused_wp {k : Option Uuid → Route Response} :
    (requireClaimToken (some w) none >>= k).wp (scheduler mode).traced t
      (senderAudit mode w t r) (fun _ _ => True) x := by
  refine Program.wp_seq (R := fun o _ => ∃ e, o = .error e) requireClaimToken_refuses ?_
    fun _ _ _ => trivial
  rintro a y ⟨e, he⟩
  cases he

theorem ofExcept_wp {v : Except HttpError α} {k : α → Route Response}
    (hk : ∀ a, (k a).wp (scheduler mode).traced t (senderAudit mode w t r) (fun _ _ => True) x) :
    (Program.ofExcept v >>= k).wp (scheduler mode).traced t (senderAudit mode w t r)
      (fun _ _ => True) x := by
  cases v with
  | error e => trivial
  | ok a => exact hk a

theorem terminalReport_refused {token : WorkerToken} {jobId : Uuid} {incoming : JobStatus}
    {block : Job → Option Uuid → Block Bool} (howner : token.workerId = some w) :
    (terminalReport mode token jobId incoming none block).wp (scheduler mode).traced t
      (senderAudit mode w t r) (fun _ _ => True) x := by
  refine Program.wp_seq (R := fun _ _ => True)
    (reads_wp (requireOwnedJob_only _ ⟨_, rfl, rfl, rfl⟩)) (fun job y _ =>
      ofExcept_wp fun duplicate => ?_) fun _ _ _ => trivial
  cases duplicate with
  | true => trivial
  | false =>
    rw [howner]
    exact refused_wp

theorem checkDerivative_refused {token : WorkerToken} {jobId : Uuid} {key : String}
    (howner : token.workerId = some w) :
    (checkDerivative token jobId key none).wp (scheduler mode).traced t
      (senderAudit mode w t r) (fun _ _ => True) x := by
  refine Program.wp_seq (R := fun _ _ => True)
    (reads_wp (requireOwnedJob_only _ ⟨_, rfl, rfl, rfl⟩)) (fun job y _ => ?_)
    fun _ _ _ => trivial
  refine System.wp_audit (System.Stable.true t) trivial fun i z _ _ =>
    ⟨fun _ _ _ _ => ⟨_, rfl, rfl, rfl⟩, ?_⟩
  generalize (scheduler mode).handler.answer t (.statement (.lookupByKey key)) i z.1 = row
  cases row with
  | none => trivial
  | some existing =>
    refine ofExcept_wp fun duplicate => ?_
    cases duplicate with
    | true => trivial
    | false =>
      rw [howner]
      exact refused_wp

theorem progress_refused {token : WorkerToken} {jobId : Uuid} {body : ProgressRequest}
    (howner : token.workerId = some w) (hbody : body.claimToken = none) :
    (progress token jobId body).wp (scheduler mode).traced t (senderAudit mode w t r)
      (fun _ _ => True) x := by
  refine Program.wp_seq (R := fun _ _ => True)
    (reads_wp (requireOwnedJob_only _ ⟨_, rfl, rfl, rfl⟩)) (fun job y _ => ?_)
    fun _ _ _ => trivial
  rw [howner, hbody]
  exact refused_wp

theorem request_refused (mode : Isolation) (w : Uuid) (t : Nat) (r : Request)
    (x : Traced Nat Op Store Unit) :
    (r.body mode).wp (scheduler mode).traced t (senderAudit mode w t r) (fun _ _ => True) x := by
  by_cases hrep : ∃ rep, report? r = some rep ∧ rep.claimToken = none ∧ rep.owner = some w
  · obtain ⟨rep, hrep, hnone, howner⟩ := hrep
    cases r with
    | checkDerivative =>
      cases hrep
      cases hnone
      exact checkDerivative_refused howner
    | progress =>
      cases hrep
      exact progress_refused howner hnone
    | complete token jobId body =>
      cases hrep
      change (terminalReport mode token jobId .complete body.claimToken _).wp _ _ _ _ _
      rw [show body.claimToken = none from hnone]
      exact terminalReport_refused howner
    | skipped token jobId body =>
      cases hrep
      change (terminalReport mode token jobId .skipped body.claimToken _).wp _ _ _ _ _
      rw [show body.claimToken = none from hnone]
      exact terminalReport_refused howner
    | failed token jobId body =>
      cases hrep
      change (terminalReport mode token jobId .failed body.claimToken _).wp _ _ _ _ _
      rw [show body.claimToken = none from hnone]
      exact terminalReport_refused howner
    | _ => cases hrep
  · exact System.wp_audit_of_calls (A := fun _ => True)
      ((r.body_calls mode).mono fun _ _ => trivial)
      fun _ _ _ _ _ rep h hnone howner => absurd ⟨rep, h, hnone, howner⟩ hrep

end WithoutToken

section Runs

variable {mode : Isolation} {s : Store} {es : List SchedulerCall} {d : SchedulerConfig}

-- In every report's transaction, no retry and no deletion of the job falls between the
-- transition the report won and its last write to the catalog.
def BlocksUndisturbed (es : List SchedulerCall) : Prop :=
  ∀ xs e ys, es = xs ++ e :: ys →
    Settled e.thread e.request e.op (xs.map ThreadCall.entry)

theorem mem_split {e : SchedulerCall} (he : e ∈ es) : ∃ xs ys, es = xs ++ e :: ys :=
  List.append_of_mem he

theorem token_reports (hs : s.WellFormed) (h : SchedulerRun mode s es d)
    (hblocks : BlocksUndisturbed es) : ∀ e ∈ es, ∀ rep attempt, report? e.request = some rep →
      rep.claimToken = some attempt →
      (e.post.jobs ≠ e.pre.jobs → RunsAttempt e.pre rep.jobId attempt) ∧
      (e.post.media ≠ e.pre.media → RunsAttempt e.pre rep.jobId attempt ∨
        mode = .shared ∧ Concluded e.pre rep.jobId attempt) := by
  intro e he rep attempt hrep hattempt
  have hpost := SchedulerRun.post h e he
  have hperforms := SchedulerRun.performs h
  have hwell := (hs.run h).1
  obtain ⟨xs, ys, heq⟩ := mem_split he
  have hchecked := Run.audited h (request_wp mode)
    (fun xs e ys heq => by
      have hmem : e ∈ es := by simp [heq]
      exact ⟨hperforms e hmem, hwell e hmem, hblocks xs e ys heq⟩) xs e ys heq
  rw [hpost]
  exact ⟨report_jobs (hwell e he) hrep hattempt (hperforms e he),
    hchecked rep attempt hrep hattempt⟩

theorem tokenless_reports {w : Uuid} (h : SchedulerRun mode s es d) (hw : Advertises w s)
    (hregisters : ∀ e ∈ es, RegistersSender w e.op) : ∀ e ∈ es, ∀ rep, report? e.request = some rep →
      rep.claimToken = none → rep.owner = some w →
      e.post.jobs = e.pre.jobs ∧ e.post.media = e.pre.media := by
  intro e he rep hrep hnone howner
  have hadvertises : ∀ e ∈ es, Advertises w e.pre := by
    refine (Run.invariant (A := fun e => e.request.Performs e.op ∧ RegistersSender w e.op) h
      (fun e he => ⟨SchedulerRun.performs h e he, hregisters e he⟩) hw ?_ (fun _ _ h => h) ?_).1
    · intro t r s s' hs hstart
      rw [start_state hstart]
      exact hs
    · intro t r op i s hs ha
      exact hs.exec ha.1 ha.2
  obtain ⟨xs, ys, heq⟩ := mem_split he
  obtain ⟨q, hq, hjobs, hmedia⟩ := Run.audited h (request_refused mode w)
    (fun xs e ys heq => hadvertises e (by simp [heq])) xs e ys heq rep hrep hnone howner
  rw [SchedulerRun.post h e he, hq]
  exact ⟨Statement.jobs_eq hjobs e.pre, Statement.media_eq hmedia e.pre⟩

end Runs

section Sample

-- A run in which no job is retried or deleted disturbs no block.
def Undisturbing (op : Op) : Bool :=
  match op with
  | .statement (.updateJob _ _) | .statement (.deleteJobRows _) | .reportBlock _
  | .batchBlock _ => false
  | .statement _ => true

theorem spares_of_undisturbing {op : Op} (h : Undisturbing op = true) (jobId : Uuid) :
    op.Does (Spares jobId) := by
  cases op with
  | statement q => cases q <;> first | trivial | cases h
  | reportBlock p => cases h
  | batchBlock p => cases h

theorem blocksUndisturbed_of {es : List SchedulerCall} (h : ∀ e ∈ es, Undisturbing e.op = true) :
    BlocksUndisturbed es := by
  rintro xs e ys rfl rep - -
  refine ClearSince.of_forall fun f hf => ?_
  obtain ⟨e', he', rfl⟩ := List.mem_map.mp hf
  exact not_not.mpr (spares_of_undisturbing (h e' (by simp [he'])) _)

-- The worker registers again and claims its job anew; the report of the attempt before comes in.
def staleReport : Played :=
  (play .shared sampleRunning
    (.start 0 (.register sampleToken { name := "worker", host := "host", sendsClaimToken := true }) ::
      calls 0 3 ++ .start 1 (.claim sampleToken 1) :: calls 1 3 ++
      .start 2 (.failed sampleToken 0 { claimToken := some 2 }) :: calls 2 4)).get
    (by decide +kernel)

-- The failed report has ended the job but not yet written to the catalog; a retry and a claim
-- start the next attempt; then the report's write lands.
def lateSync : Played :=
  (play .shared sampleRunning (.start 0 (.failed sampleToken 0 { claimToken := some 2 }) ::
    calls 0 3 ++ .start 1 (.retry 0) :: calls 1 5 ++ .start 2 (.claim sampleToken 1) ::
    calls 2 3 ++ calls 0 1)).get (by decide +kernel)

end Sample

end TranscodeForge.Attempts
