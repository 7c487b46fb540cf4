import TranscodeForge.Scheduler.Attempts

namespace TranscodeForge.Terminal

open Relational Interaction Scheduler Store Attempts

section Stability

variable {mode : Isolation} {s : Store} {es : List SchedulerCall} {d : SchedulerConfig}

theorem sends_spares {r : Request} {q : Statement} {id : Uuid} (hq : r.Sends q)
    (hretry : r ≠ .retry id) (hclear : r ≠ .clearCompleted) (hreset : r ≠ .reset) :
    Spares id q := by
  cases r with
  | clearCompleted => exact absurd rfl hclear
  | reset => exact absurd rfl hreset
  | retry id' =>
    cases q with
    | updateJob =>
      obtain ⟨rfl, -⟩ := hq
      exact fun h => hretry (h ▸ rfl)
    | _ => first | trivial | exact hq.elim
  | heartbeat => exact hq.2 ▸ trivial
  | claim => cases q <;> first | trivial | exact hq.2.elim
  | checkDerivative => cases q <;> first | trivial | exact hq.1.elim
  | _ => cases q <;> first | trivial | exact hq.elim

theorem finished_next {q : Statement} {s : Store} {id : Uuid} {j : Job}
    (hj : s.jobs.get? id = some j) (hterminal : j.status.isTerminal = true) (hq : Spares id q) :
    (q.next s).jobs.get? id = some j := by
  have hrow := q.next_row s id
  rw [hj] at hrow
  generalize hafter : (q.next s).jobs.get? id = after at hrow
  cases hrow with
  | kept => rfl
  | deleted heq hmem =>
    subst heq
    exact absurd hmem hq
  | changed hstep =>
    obtain ⟨u, rfl⟩ := hstep.terminal hterminal
    exact absurd (Table.get?_key hj) hq

-- Once a job is finished, only a retry or the deletion of jobs changes its row.
theorem finished_stable (h : SchedulerRun mode s es d) : ∀ e ∈ es, ∀ id j,
    e.pre.jobs.get? id = some j → j.status.isTerminal = true → e.post.jobs.get? id ≠ some j →
      e.request = .retry id ∨ e.request = .clearCompleted ∨ e.request = .reset := by
  intro e he id j hj hterminal hchanged
  by_contra hother
  push Not at hother
  obtain ⟨hretry, hclear, hreset⟩ := hother
  rw [SchedulerRun.post h e he] at hchanged
  exact hchanged (Op.exec_keeps (P := fun s => s.jobs.get? id = some j)
    ((SchedulerRun.does h e he).mono fun q hq => sends_spares hq hretry hclear hreset) hj
    fun q s hq hs => finished_next hs hterminal hq)

end Stability

section Winning

-- The transition of the event was won: finalize_job answered true.
def Wins (id : Uuid) (e : SchedulerCall) : Prop :=
  match e.op with
  | .statement (.finalizeJob id' w status token fields) =>
    id' = id ∧ (e.pre.finalizeJob id' w status token fields).2 = true
  | .reportBlock p =>
    (∃ rep, report? e.request = some rep ∧ rep.jobId = id) ∧ (Block.commit p e.pre).2 = true
  | _ => False

-- The attempt a row is in, by the token its claim left on it.
def attemptOf (s : Store) (id : Uuid) : Option (Option Uuid) :=
  (s.jobs.get? id).map Job.claimToken

structure Spent (s : Store) (id : Uuid) (attempt : Option Uuid) : Prop where
  drawnId : id < s.nextUuid
  drawnToken : ∀ k, attempt = some k → k < s.nextUuid
  closed : ∀ j, s.jobs.get? id = some j → j.claimToken = attempt →
    j.status.isTerminal = true ∨ j.status.isWaiting = true

variable {s : Store} {id : Uuid} {attempt : Option Uuid}

theorem over_of_step {q : Statement} {j j' : Job} (h : JobStep s q j j') (hq : q.Proper)
    (hdrawn : ∀ k, attempt = some k → k < s.nextUuid)
    (hj : j.claimToken = attempt → j.status.isTerminal = true ∨ j.status.isWaiting = true)
    (htoken : j'.claimToken = attempt) :
    j'.status.isTerminal = true ∨ j'.status.isWaiting = true := by
  cases h with
  | claimed => exact absurd (hdrawn _ htoken.symm) (Nat.lt_irrefl _)
  | progressed => exact hj htoken
  | finalized => exact .inl hq
  | released => exact .inr rfl
  | orphaned => exact .inr rfl
  | abandoned => exact .inr rfl
  | cancelled => exact .inl rfl
  | cancelledAll => exact .inl rfl
  | updated =>
    obtain ⟨job, rfl⟩ := hq
    exact .inr rfl

theorem Spent.next {q : Statement} (h : Spent s id attempt) (hq : q.Proper) :
    Spent (q.next s) id attempt where
  drawnId := Nat.lt_of_lt_of_le h.drawnId (q.nextUuid_le s)
  drawnToken k hk := Nat.lt_of_lt_of_le (h.drawnToken k hk) (q.nextUuid_le s)
  closed j' hj' htoken := by
    have hrow := q.next_row s id
    rw [hj'] at hrow
    generalize hbefore : s.jobs.get? id = before at hrow
    cases hrow with
    | kept => exact h.closed j' hbefore htoken
    | inserted _ hid => exact absurd h.drawnId (hid ▸ Nat.lt_irrefl _)
    | changed hstep => exact over_of_step hstep hq h.drawnToken (h.closed _ hbefore) htoken

theorem Spent.exec {r : Request} {op : Op} (h : Spent s id attempt) (hop : r.Performs op) :
    Spent (op.exec s).1 id attempt :=
  Op.exec_keeps (P := fun s => Spent s id attempt) (hop.does.mono fun _ => Request.Sends.proper) h
    fun _ _ hq hs => hs.next hq

-- Winning takes a running job of the attempt and leaves a finished one.
structure Won (s s' : Store) (id : Uuid) (attempt : Option Uuid) : Prop where
  before : ∃ j, s.jobs.get? id = some j ∧ j.claimToken = attempt ∧ j.status.isActive = true
  after : ∃ j, s'.jobs.get? id = some j ∧ j.claimToken = attempt ∧ j.status.isTerminal = true

theorem active_of_finalizable (hs : s.WellFormed) {w token : Option Uuid} {j : Job}
    (hj : s.jobs.get? id = some j) (h : finalizable id w token j = true) :
    j.status.isActive = true := by
  rcases j.status.waiting_active_terminal with hcase | hcase | hcase
  · have hheld := (Bool.and_eq_true_iff.mp h).1
    simp only [Job.heldBy, Bool.and_eq_true] at hheld
    rw [(hs.unowned id j hj hcase.1).1] at hheld
    cases w <;> simp at hheld
  · exact hcase.2.1
  · rw [finalizable_open h] at hcase
    cases hcase.2.2

theorem finalizeJob_won (hs : s.WellFormed) {w token : Option Uuid} {status : JobStatus}
    {fields : JobFields} (hstatus : status.isTerminal = true)
    (hwon : (s.finalizeJob id w status token fields).2 = true) :
    ∃ attempt, Won s (s.finalizeJob id w status token fields).1 id attempt := by
  rcases finalizeJob_cases s id w status token fields with hlost | ⟨-, j, hj, hp, hrow⟩
  · rw [hlost] at hwon
    cases hwon
  · exact ⟨j.claimToken, ⟨j, hj, rfl, active_of_finalizable hs hj hp⟩, _, hrow, rfl, hstatus⟩

theorem commit_syncs_jobs {α : Type} {p : Block α} (hp : p.Calls Syncs) (s : Store) :
    (Block.commit p s).1.jobs = s.jobs :=
  Block.commit_rel (R := fun s s' => s'.jobs = s.jobs) (fun _ => rfl)
    (fun _ _ _ h h' => h'.trans h) hp (fun q s hq => Statement.jobs_eq hq s) s

-- The transaction of a terminal report: the transition, then the catalog's part of it.
theorem block_finalizing {r : Request} {p : Block Bool} (h : r.Performs (.reportBlock p)) :
    ∃ rep job incoming fields sync, report? r = some rep ∧ incoming.isTerminal = true ∧
      sync.Calls Syncs ∧ p = finalizing rep.jobId job incoming rep.claimToken fields sync := by
  obtain ⟨block, job, hblock, rfl, -, -⟩ := h
  cases r with
  | complete =>
    cases hblock
    refine ⟨_, job, .complete, _, _, rfl, rfl, ?_, rfl⟩
    exact calls_ask rfl fun _ => updateOutputByJob_syncs ..
  | skipped =>
    cases hblock
    refine ⟨_, job, .skipped, _, _, rfl, rfl, ?_, rfl⟩
    exact calls_ask rfl fun _ => ⟨rfl, fun _ => trivial⟩
  | failed =>
    cases hblock
    refine ⟨_, job, .failed, _, _, rfl, rfl, ?_, rfl⟩
    exact ⟨rfl, fun _ => trivial⟩
  | _ => cases hblock

theorem Wins.won {e : SchedulerCall} (hs : e.pre.WellFormed) (hperforms : e.request.Performs e.op)
    (hpost : e.post = (e.op.exec e.pre).1) (h : Wins id e) : ∃ attempt, Won e.pre e.post id attempt := by
  obtain ⟨⟨op, i, pre, post⟩, t, r⟩ := e
  dsimp only at hs hperforms hpost h ⊢
  subst hpost
  cases op with
  | statement q =>
    cases q with
    | finalizeJob =>
      obtain ⟨rfl, hwon⟩ := h
      exact finalizeJob_won hs (Request.Sends.proper hperforms) hwon
    | _ => exact h.elim
  | reportBlock p =>
    obtain ⟨rep, job, incoming, fields, sync, hrep, hincoming, hsync, rfl⟩ :=
      block_finalizing hperforms
    obtain ⟨⟨rep', hrep', rfl⟩, hwon⟩ := h
    cases hrep.symm.trans hrep'
    rw [commit_finalizing] at hwon
    split at hwon
    · next hfinalize =>
      obtain ⟨attempt, hwin⟩ := finalizeJob_won hs hincoming hfinalize
      refine ⟨attempt, hwin.before, ?_⟩
      change ∃ j, (Block.commit (finalizing _ _ _ _ _ _) pre).1.jobs.get? _ = some j ∧ _
      rw [commit_finalizing, if_pos hfinalize, commit_syncs_jobs hsync]
      exact hwin.after
    · cases hwon
  | batchBlock p => exact h.elim

theorem Won.spent {s' : Store} (h : Won s s' id attempt) (hs' : s'.WellFormed) :
    Spent s' id attempt := by
  obtain ⟨j, hj, rfl, hterminal⟩ := h.after
  refine ⟨hs'.drawnId id j hj, fun k hk => hs'.drawnToken id j k hj hk, fun j' hj' _ => ?_⟩
  rw [hj] at hj'
  cases hj'
  exact .inl hterminal

theorem Won.not_spent {s' : Store} (h : Won s s' id attempt) : ¬Spent s id attempt := by
  intro hspent
  obtain ⟨j, hj, htoken, hactive⟩ := h.before
  have hcases := j.status.waiting_active_terminal
  rcases hspent.closed j hj htoken with hover | hover <;> simp [hactive, hover] at hcases

end Winning

section Attempt

variable {mode : Isolation} {s : Store} {es : List SchedulerCall} {d : SchedulerConfig}

-- Every attempt that a report has won is over.
def Spending (s : Store) (es : List SchedulerCall) : Prop :=
  s.WellFormed ∧ ∀ e ∈ es, ∀ id, Wins id e → ∀ attempt, attemptOf e.pre id = some attempt →
    Spent s id attempt

theorem spending (hs : s.WellFormed) (h : SchedulerRun mode s es d) :
    ∀ xs e ys, es = xs ++ e :: ys → Spending e.pre xs := by
  refine (Run.history_invariant (P := Spending) (A := fun _ e => e.request.Performs e.op) h
    (fun xs e ys heq => SchedulerRun.performs h e (by simp [heq])) ⟨hs, by simp⟩ ?_ ?_ ?_).1
  · intro t r s s' es hP hstart
    rw [start_state hstart]
    exact hP
  · intro k s es hP
    exact ⟨hP.1.later k, fun e he id hwins attempt hat =>
      ⟨(hP.2 e he id hwins attempt hat).drawnId, (hP.2 e he id hwins attempt hat).drawnToken,
        (hP.2 e he id hwins attempt hat).closed⟩⟩
  · intro e es hpost hperforms hP
    have hwell : e.post.WellFormed := by
      rw [hpost]
      exact Op.exec_keeps (hperforms.does.mono fun _ => Request.Sends.proper) hP.1
        fun _ _ hq hs => hs.next hq
    refine ⟨hwell, fun e' he' id hwins attempt hat => ?_⟩
    rcases List.mem_append.mp he' with he' | he'
    · rw [hpost]
      exact (hP.2 e' he' id hwins attempt hat).exec hperforms
    · rw [List.mem_singleton.mp he'] at hwins hat
      obtain ⟨attempt', hwon⟩ := hwins.won hP.1 hperforms hpost
      obtain ⟨j, hj, hj', -⟩ := hwon.before
      rw [attemptOf, hj, Option.map_some, hj'] at hat
      exact Option.some.inj hat ▸ hwon.spent hwell

theorem one_win (hs : s.WellFormed) (h : SchedulerRun mode s es d) {xs ys zs : List SchedulerCall}
    {e e' : SchedulerCall} (heq : es = xs ++ e :: ys ++ e' :: zs) {id : Uuid} (hwins : Wins id e)
    (hwins' : Wins id e') : attemptOf e.pre id ≠ attemptOf e'.pre id := by
  intro hsame
  have hwell := spending hs h (xs ++ e :: ys) e' zs heq
  have hmem : e' ∈ es := by simp [heq]
  obtain ⟨attempt, hwon⟩ := hwins'.won hwell.1 (SchedulerRun.performs h e' hmem)
    (SchedulerRun.post h e' hmem)
  obtain ⟨j, hj, htoken, -⟩ := hwon.before
  refine hwon.not_spent (hwell.2 e (by simp) id hwins attempt ?_)
  rw [hsame, attemptOf, hj, Option.map_some, htoken]

end Attempt

section SideEffects

def describeSwapped (s : Store) (jobId : Uuid) (videoCodec : String) (fileSize : Nat) :
    Option Nat → Store
  | none => s.updateOutput jobId videoCodec fileSize
  | some height => (s.selectSwapped jobId).foldl (fun s m => s.describeOutput m.id videoCodec
      fileSize (scaledWidth m.width m.height height) height) s

def outcome : Request → JobStatus
  | .skipped _ _ _ => .skipped
  | .failed _ _ _ => .failed
  | _ => .complete

-- The catalog's part of a won report: the status, the output's description, the skip record.
def synced (r : Request) (job : Job) (s : Store) : Store :=
  match r with
  | .complete _ jobId body =>
    describeSwapped (s.updateStatusByJob jobId .complete none) jobId job.targetCodec
      body.outputSize job.targetHeight
  | .skipped _ jobId body =>
    (s.recordSkip
      { filePath := job.sourcePath
        library := job.library
        libraryId := job.libraryId
        codec := job.sourceCodec
        resolution := job.sourceResolution
        fileSize := job.sourceSize
        skipReason := body.reason
        createdAt := 0
        updatedAt := 0 }).updateStatusByJob jobId .skipped (some body.reason)
  | .failed _ jobId _ => s.updateStatusByJob jobId .needsTranscode none
  | _ => s

theorem commit_each {β : Type} (xs : List β) (q : β → Statement) (f : β → Block Unit)
    (hf : ∀ x s, (Block.commit (f x) s).1 = (q x).next s) (s : Store) :
    (Block.commit (Program.each xs f) s).1 = xs.foldl (fun s x => (q x).next s) s := by
  induction xs generalizing s with
  | nil => rfl
  | cons x xs ih =>
    rw [Program.each, commit_bind, ih, List.foldl_cons, hf]

theorem commit_updateOutputByJob (jobId : Uuid) (codec : String) (size : Nat)
    (height : Option Nat) (s : Store) :
    (Block.commit (updateOutputByJob jobId codec size height) s).1 =
      describeSwapped s jobId codec size height := by
  cases height with
  | none => rfl
  | some h =>
    exact commit_each (s.selectSwapped jobId) (fun m => .describeOutput m.id codec size
      (scaledWidth m.width m.height h) h) _ (fun _ _ => rfl) s

theorem commit_report (jobId : Uuid) (job : Job) (incoming : JobStatus)
    (claimToken : Option Uuid) (fields : Instant → JobFields) {sync : Block Unit}
    {applied : Store → Store} (hsync : ∀ s, (Block.commit sync s).1 = applied s) (s : Store) :
    Block.commit (finalizing jobId job incoming claimToken fields sync) s =
      if (s.finalizeJob jobId job.workerId incoming claimToken (fields s.now)).2 then
        (applied (s.finalizeJob jobId job.workerId incoming claimToken (fields s.now)).1, true)
      else (s, false) := by
  rw [commit_finalizing, hsync]
  rcases finalizeJob_cases s jobId job.workerId incoming claimToken (fields s.now) with
    hlost | ⟨hwon, -⟩
  · rw [hlost]
  · rw [if_pos hwon, if_pos hwon]

-- A report's transaction as one step: everything when its transition is won, nothing otherwise.
theorem block_synced {r : Request} {p : Block Bool} (h : r.Performs (.reportBlock p)) (s : Store) :
    ∃ rep job fields, report? r = some rep ∧
      Block.commit p s =
        if (s.finalizeJob rep.jobId job.workerId (outcome r) rep.claimToken fields).2 then
          (synced r job
            (s.finalizeJob rep.jobId job.workerId (outcome r) rep.claimToken fields).1, true)
        else (s, false) := by
  obtain ⟨block, job, hblock, rfl, -, -⟩ := h
  cases r with
  | complete =>
    cases hblock
    refine ⟨_, job, _, rfl, commit_report _ _ _ _ _ (fun s => ?_) s⟩
    exact commit_updateOutputByJob _ _ _ _ (s.updateStatusByJob _ .complete none)
  | skipped =>
    cases hblock
    exact ⟨_, job, _, rfl, commit_report _ _ _ _ _ (fun _ => rfl) s⟩
  | failed =>
    cases hblock
    exact ⟨_, job, _, rfl, commit_report _ _ _ _ _ (fun _ => rfl) s⟩
  | _ => cases hblock

-- Outside its transaction, a terminal report only reads.
def OnlyReads (r : Request) (op : Op) : Prop :=
  (∃ id, op = .statement (.getJob id)) ∨ (∃ w, op = .statement (.getWorker w)) ∨
    ∃ p, op = .reportBlock p ∧ r.Performs op

theorem report_onlyReads {r : Request} {token : WorkerToken} {jobId : Uuid} {incoming : JobStatus}
    {claimToken : Option Uuid} {block : Job → Option Uuid → Block Bool}
    (hblock : ∀ job, job.workerId = token.workerId → token.workerId ≠ none →
      r.Performs (.reportBlock (block job claimToken))) :
    (terminalReport .isolated token jobId incoming claimToken block).Calls (OnlyReads r) :=
  terminalReport_calls (.inl ⟨_, rfl⟩) (fun _ _ _ => .inr (.inl ⟨_, rfl⟩))
    fun job howner hsome => ⟨.inr (.inr ⟨_, rfl, hblock job howner hsome⟩), fun _ => trivial⟩

theorem body_onlyReads {r : Request} (hr : r.outcomeBlock.isSome = true) :
    (r.body .isolated).Calls (OnlyReads r) := by
  cases r with
  | complete => exact report_onlyReads fun job howner hsome => ⟨_, job, rfl, rfl, howner, hsome⟩
  | skipped => exact report_onlyReads fun job howner hsome => ⟨_, job, rfl, rfl, howner, hsome⟩
  | failed => exact report_onlyReads fun job howner hsome => ⟨_, job, rfl, rfl, howner, hsome⟩
  | _ => cases hr

variable {s : Store} {es : List SchedulerCall} {d : SchedulerConfig}

-- A terminal report changes the database exactly when it wins, and then by all of its outcome.
theorem outcome_applied (h : SchedulerRun .isolated s es d) : ∀ e ∈ es,
    e.request.outcomeBlock.isSome = true →
      ((∀ id, ¬Wins id e) ∧ e.post = e.pre) ∨
        ∃ rep job fields, report? e.request = some rep ∧ Wins rep.jobId e ∧
          e.post = synced e.request job (e.pre.finalizeJob rep.jobId job.workerId
            (outcome e.request) rep.claimToken fields).1 := by
  intro e he hr
  have hop : OnlyReads e.request e.op :=
    (Run.calls (A := fun _ r op => r.outcomeBlock.isSome = true → OnlyReads r op) h
      fun t r s s' _ => by
        cases hr : r.outcomeBlock.isSome with
        | true => exact (body_onlyReads hr).mono fun op hop _ => hop
        | false => exact (r.body_calls .isolated).mono fun op _ hr' => (by cases hr')).1 e he hr
  have hpost := SchedulerRun.post h e he
  obtain ⟨⟨op, i, pre, post⟩, t, r⟩ := e
  dsimp only at hop hpost hr ⊢
  subst hpost
  rcases hop with ⟨id, rfl⟩ | ⟨w, rfl⟩ | ⟨p, rfl, hperforms⟩
  · exact .inl ⟨fun _ h => h, rfl⟩
  · exact .inl ⟨fun _ h => h, rfl⟩
  · obtain ⟨rep, job, fields, hrep, hcommit⟩ := block_synced hperforms pre
    by_cases hwon : (pre.finalizeJob rep.jobId job.workerId (outcome r) rep.claimToken fields).2 = true
    · rw [if_pos hwon] at hcommit
      exact .inr ⟨rep, job, fields, hrep, ⟨⟨rep, hrep, rfl⟩, congrArg Prod.snd hcommit⟩,
        congrArg Prod.fst hcommit⟩
    · rw [if_neg hwon] at hcommit
      refine .inl ⟨fun id hwins => ?_, congrArg Prod.fst hcommit⟩
      have htrue : (Block.commit p pre).2 = true := hwins.2
      rw [hcommit] at htrue
      cases htrue

end SideEffects

section Sample

-- Two conflicting reports pass the guard together; the second to write loses.
def conflict : Played :=
  (play .isolated sampleRunning
    (.start 0 (.complete sampleToken 0 { claimToken := some 2, outputSize := 7 }) :: calls 0 1 ++
      .start 1 (.failed sampleToken 0 { claimToken := some 2 }) :: calls 1 2 ++ calls 0 2)).get
    (by decide +kernel)

end Sample

end TranscodeForge.Terminal
