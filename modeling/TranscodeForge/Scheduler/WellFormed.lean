import TranscodeForge.Scheduler.Requests

namespace TranscodeForge.Scheduler

open Relational Interaction Store

section Operations

variable {A B : Statement → Prop}

def Op.Does (A : Statement → Prop) : Op → Prop
  | .statement q => A q
  | .reportBlock p => p.Calls A
  | .batchBlock p => p.Calls A

theorem Op.Does.mono {op : Op} (h : op.Does A) (hAB : ∀ q, A q → B q) : op.Does B := by
  cases op with
  | statement q => exact hAB q h
  | reportBlock p => exact Program.Calls.mono h hAB
  | batchBlock p => exact Program.Calls.mono h hAB

theorem Block.commit_rel {α : Type} {R : Store → Store → Prop} {p : Block α} (hrefl : ∀ s, R s s)
    (htrans : ∀ s₁ s₂ s₃, R s₁ s₂ → R s₂ s₃ → R s₁ s₃) (hp : p.Calls A)
    (hstep : ∀ q s, A q → R s (q.next s)) (s : Store) : R s (Block.commit p s).1 := by
  induction p generalizing s with
  | ret a => exact hrefl s
  | raise e => exact e.elim
  | call q k ih => exact htrans _ _ _ (hstep q s hp.1) (ih _ (hp.2 _) _)

-- A relation between states that every statement of an operation makes good is made good by
-- the operation.
theorem Op.exec_rel {R : Store → Store → Prop} {op : Op} (hrefl : ∀ s, R s s)
    (htrans : ∀ s₁ s₂ s₃, R s₁ s₂ → R s₂ s₃ → R s₁ s₃) (hop : op.Does A)
    (hstep : ∀ q s, A q → R s (q.next s)) (s : Store) : R s (op.exec s).1 := by
  cases op with
  | statement q => exact hstep q s hop
  | reportBlock p => exact Block.commit_rel hrefl htrans hop hstep s
  | batchBlock p => exact Block.commit_rel hrefl htrans hop hstep s

theorem Op.exec_keeps {P : Store → Prop} {op : Op} {s : Store} (hop : op.Does A) (hs : P s)
    (hstep : ∀ q s, A q → P s → P (q.next s)) : P (op.exec s).1 :=
  Op.exec_rel (R := fun s s' => P s → P s') (fun _ h => h) (fun _ _ _ h h' hp => h' (h hp)) hop
    hstep s hs

end Operations

-- What no statement of any request departs from.
def Statement.Proper : Statement → Prop
  | .updateJob _ u => ∃ job, u = retryUpdate job
  | .createJob draft => draft.status = .queued
  | .finalizeJob _ _ status _ _ => status.isTerminal = true
  | _ => True

theorem ReportSends.proper {owner claimToken : Option Uuid} {jobId : Uuid} {incoming : JobStatus}
    {q : Statement} (h : ReportSends owner jobId incoming claimToken q)
    (hincoming : incoming.isTerminal = true) : q.Proper := by
  cases q with
  | finalizeJob => exact h.2.2.1 ▸ hincoming
  | updateJob => exact h.elim
  | createJob => exact h.elim
  | _ => trivial

theorem Request.Sends.proper {r : Request} {q : Statement} (h : r.Sends q) : q.Proper := by
  cases r with
  | heartbeat => exact h.2 ▸ trivial
  | checkDerivative => exact ReportSends.proper h.1 rfl
  | complete => exact ReportSends.proper h rfl
  | skipped => exact ReportSends.proper h rfl
  | failed => exact ReportSends.proper h rfl
  | claim =>
    cases q with
    | updateJob => exact h.2.elim
    | createJob => exact h.2.elim
    | finalizeJob => exact h.2.elim
    | _ => trivial
  | retry =>
    cases q with
    | updateJob => exact h.2
    | createJob => exact h.elim
    | finalizeJob => exact h.elim
    | _ => trivial
  | queueFiles =>
    cases q with
    | updateJob => exact h.elim
    | createJob => exact h
    | finalizeJob => exact h.elim
    | _ => trivial
  | _ =>
    cases q with
    | updateJob => exact h.elim
    | createJob => exact h.elim
    | finalizeJob => exact h.elim
    | _ => trivial

theorem Request.Performs.does {r : Request} {op : Op} (h : r.Performs op) : op.Does r.Sends := by
  cases op with
  | statement q => exact h
  | batchBlock p => exact h.2
  | reportBlock p =>
    obtain ⟨block, job, hblock, rfl, howner, -⟩ := h
    cases r with
    | complete =>
      cases hblock
      exact completeBlock_calls howner
    | skipped =>
      cases hblock
      exact skipBlock_calls howner
    | failed =>
      cases hblock
      exact failBlock_calls howner
    | _ => cases hblock

-- Starting to serve a request changes nothing.
theorem start_state {mode : Isolation} {t : Nat} {r : Request} {s s' : Store}
    (h : (scheduler mode).start t r s = some s') : s' = s := by
  simp only [scheduler] at h
  split at h
  · exact (Option.some.inj h).symm
  · cases h

namespace SchedulerRun

variable {mode : Isolation} {s : Store} {es : List SchedulerCall} {d : SchedulerConfig}

theorem performs (h : SchedulerRun mode s es d) : ∀ e ∈ es, e.request.Performs e.op :=
  (Run.calls h fun _ r _ _ _ => r.body_calls mode).1

theorem does (h : SchedulerRun mode s es d) : ∀ e ∈ es, e.op.Does e.request.Sends :=
  fun e he => (performs h e he).does

theorem post (h : SchedulerRun mode s es d) : ∀ e ∈ es, e.post = (e.op.exec e.pre).1 :=
  Run.post_eq h

-- A property of the database that no proper statement and no passing of time ends.
theorem keeps {P : Store → Prop} (h : SchedulerRun mode s es d) (hinit : P s)
    (htime : ∀ n s, P s → P { s with now := s.now + n })
    (hstep : ∀ (q : Statement) s, q.Proper → P s → P (q.next s)) :
    (∀ e ∈ es, P e.pre) ∧ P d.state := by
  refine Run.invariant (A := fun e => e.op.Does e.request.Sends) h (does h) hinit ?_ htime ?_
  · intro t r s s' hs hstart
    rw [start_state hstart]
    exact hs
  · intro t r op i s hs hdoes
    exact Op.exec_keeps (hdoes.mono fun q => Request.Sends.proper) hs hstep

end SchedulerRun

structure Store.WellFormed (s : Store) : Prop where
  unowned : ∀ id j, s.jobs.get? id = some j → j.status.isWaiting = true →
    j.workerId = none ∧ j.claimToken = none
  drawnToken : ∀ id j k, s.jobs.get? id = some j → j.claimToken = some k → k < s.nextUuid
  drawnId : ∀ id j, s.jobs.get? id = some j → id < s.nextUuid

theorem Statement.nextUuid_le (q : Statement) (s : Store) : s.nextUuid ≤ (q.next s).nextUuid := by
  cases q with
  | createJob => exact Nat.le_succ _
  | uuid4 => exact Nat.le_succ _
  | claimNextJob w codecs downscale =>
    change s.nextUuid ≤ (s.claimNextJob w codecs downscale).1.nextUuid
    rw [Store.claimNextJob]
    split <;> exact Nat.le_succ _
  | _ => exact Nat.le_refl _

theorem Statement.now_eq (q : Statement) (s : Store) : (q.next s).now = s.now := by
  cases q with
  | claimNextJob w codecs downscale =>
    change (s.claimNextJob w codecs downscale).1.now = s.now
    rw [Store.claimNextJob]
    split <;> rfl
  | _ => rfl

theorem Op.does_any (op : Op) : op.Does fun _ => True := by
  have hblock {α : Type} (p : Block α) : p.Calls fun _ => True := by
    induction p with
    | ret a => trivial
    | raise e => trivial
    | call q k ih => exact ⟨trivial, ih⟩
  cases op with
  | statement q => trivial
  | reportBlock p => exact hblock p
  | batchBlock p => exact hblock p

theorem Op.now_eq (op : Op) (s : Store) : (op.exec s).1.now = s.now :=
  Op.exec_rel (R := fun s s' => s'.now = s.now) (fun _ => rfl) (fun _ _ _ h h' => h'.trans h)
    op.does_any (fun q s _ => q.now_eq s) s

theorem claimNextJob_nextUuid (s : Store) (w : Uuid) (codecs : List String) (downscale : Bool) :
    ((Statement.claimNextJob w codecs downscale).next s).nextUuid = s.nextUuid + 1 := by
  change (s.claimNextJob w codecs downscale).1.nextUuid = _
  rw [Store.claimNextJob]
  split <;> rfl

-- The claim token and the owner that a step leaves on a row.
theorem JobStep.unowned {s : Store} {q : Statement} {j j' : Job} (h : JobStep s q j j')
    (hq : q.Proper) (hj : j.status.isWaiting = true → j.workerId = none ∧ j.claimToken = none)
    (hwaiting : j'.status.isWaiting = true) : j'.workerId = none ∧ j'.claimToken = none := by
  cases h with
  | claimed => cases hwaiting
  | progressed => exact hj hwaiting
  | @finalized _ _ _ status =>
    change status.isTerminal = true at hq
    change status.isWaiting = true at hwaiting
    rcases status.waiting_active_terminal with h | h | h
    · rw [hq] at h
      cases h.2.2
    · rw [hq] at h
      cases h.2.2
    · rw [hwaiting] at h
      cases h.1
  | released => exact ⟨rfl, rfl⟩
  | orphaned => exact ⟨rfl, rfl⟩
  | abandoned => exact ⟨rfl, rfl⟩
  | cancelled => cases hwaiting
  | cancelledAll => cases hwaiting
  | updated =>
    obtain ⟨job, rfl⟩ := hq
    exact ⟨rfl, rfl⟩

theorem JobStep.claimToken_cases {s : Store} {q : Statement} {j j' : Job} (h : JobStep s q j j')
    (hq : q.Proper) :
    j'.claimToken = j.claimToken ∨ j'.claimToken = none ∨
      ∃ w codecs downscale, q = .claimNextJob w codecs downscale ∧
        j'.claimToken = some s.nextUuid := by
  cases h with
  | claimed => exact .inr (.inr ⟨_, _, _, rfl, rfl⟩)
  | progressed => exact .inl rfl
  | finalized => exact .inl rfl
  | released => exact .inr (.inl rfl)
  | orphaned => exact .inr (.inl rfl)
  | abandoned => exact .inr (.inl rfl)
  | cancelled => exact .inl rfl
  | cancelledAll => exact .inl rfl
  | updated =>
    obtain ⟨job, rfl⟩ := hq
    exact .inr (.inl rfl)

namespace Store.WellFormed

variable {s : Store} {q : Statement}

theorem empty : WellFormed {} where
  unowned id j h := by cases h
  drawnToken id j k h := by cases h
  drawnId id j h := by cases h

theorem next (hs : s.WellFormed) (hq : q.Proper) : (q.next s).WellFormed := by
  have hle := q.nextUuid_le s
  constructor
  · intro id j' hj' hwaiting
    have hrow := q.next_row s id
    rw [hj'] at hrow
    generalize hbefore : s.jobs.get? id = before at hrow
    cases hrow with
    | kept => exact hs.unowned id j' hbefore hwaiting
    | inserted => exact ⟨rfl, rfl⟩
    | changed hstep => exact hstep.unowned hq (hs.unowned id _ hbefore) hwaiting
  · intro id j' k hj' hk
    have hrow := q.next_row s id
    rw [hj'] at hrow
    generalize hbefore : s.jobs.get? id = before at hrow
    cases hrow with
    | kept => exact Nat.lt_of_lt_of_le (hs.drawnToken id j' k hbefore hk) hle
    | inserted => cases hk
    | changed hstep =>
      rcases hstep.claimToken_cases hq with h | h | ⟨w, codecs, downscale, rfl, h⟩
      · exact Nat.lt_of_lt_of_le (hs.drawnToken id _ k hbefore (h ▸ hk)) hle
      · rw [h] at hk
        cases hk
      · rw [h] at hk
        cases hk
        rw [claimNextJob_nextUuid]
        exact Nat.lt_succ_self _
  · intro id j' hj'
    have hrow := q.next_row s id
    rw [hj'] at hrow
    generalize hbefore : s.jobs.get? id = before at hrow
    cases hrow with
    | kept => exact Nat.lt_of_lt_of_le (hs.drawnId id j' hbefore) hle
    | inserted hq' hid =>
      subst hq' hid
      exact Nat.lt_succ_self _
    | changed => exact Nat.lt_of_lt_of_le (hs.drawnId id _ hbefore) hle

theorem later (hs : s.WellFormed) (n : Nat) : ({ s with now := s.now + n } : Store).WellFormed :=
  ⟨hs.unowned, hs.drawnToken, hs.drawnId⟩

theorem run {mode : Isolation} {es : List SchedulerCall} {d : SchedulerConfig}
    (hs : s.WellFormed) (h : SchedulerRun mode s es d) :
    (∀ e ∈ es, e.pre.WellFormed) ∧ d.state.WellFormed :=
  SchedulerRun.keeps h hs (fun n _ hs => hs.later n) fun _ _ hq hs => hs.next hq

-- A job that is running and carries no claim token is one of an old worker's.
theorem active_of_token (hs : s.WellFormed) {id k : Uuid} {j : Job}
    (hj : s.jobs.get? id = some j) (hk : j.claimToken = some k)
    (hterminal : j.status.isTerminal = false) : j.status.isActive = true := by
  rcases j.status.waiting_active_terminal with h | h | h
  · rw [(hs.unowned id j hj h.1).2] at hk
    cases hk
  · exact h.2.1
  · rw [hterminal] at h
    cases h.2.2

theorem of_rows (h : ∀ j ∈ s.jobs.rows,
    (j.status.isWaiting = true → j.workerId = none ∧ j.claimToken = none) ∧
      (∀ k ∈ j.claimToken, k < s.nextUuid) ∧ j.id < s.nextUuid) : s.WellFormed where
  unowned _ j hj := (h j (Table.get?_mem hj)).1
  drawnToken _ j k hj hk := (h j (Table.get?_mem hj)).2.1 k hk
  drawnId _ j hj := Table.get?_key hj ▸ (h j (Table.get?_mem hj)).2.2

end Store.WellFormed

section Plays

variable {mode : Isolation} {s : Store}

abbrev Played := List SchedulerCall × SchedulerConfig

abbrev SchedulerMove := Move Nat Request Nat Unit

def calls (t n : Nat) : List SchedulerMove := List.replicate n (.call t ())

def play (mode : Isolation) (s : Store) (moves : List SchedulerMove) : Option Played :=
  (Config.initial s : SchedulerConfig).playAll (scheduler mode) moves

theorem play_run {moves : List SchedulerMove} {p : Played} (h : play mode s moves = some p) :
    SchedulerRun mode s p.1 p.2 :=
  Run.playAll .refl h

-- Every request of the play has been served to its end.
theorem play_done {moves : List SchedulerMove} {p : Played} (h : play mode s moves = some p)
    {n : Nat} (hmoves : ∀ m ∈ moves, ∀ t ∈ m.starts, t < n)
    (hdone : ∀ t < n, ((p.2.threads t).all fun th => th.rest.outcome.isSome) = true) :
    ∀ t th, p.2.threads t = some th → th.rest.outcome.isSome = true := by
  intro t th hth
  by_cases ht : t < n
  · have hall := hdone t ht
    rw [hth] at hall
    exact hall
  · have hnone := Config.playAll_none (d := p.2) (t := t) h rfl fun m hm hstarts =>
      ht (hmoves m hm t hstarts)
    rw [hnone] at hth
    cases hth

-- One job on one file, and the worker and token it belongs to.
def sampleToken : WorkerToken := { tokenHash := "token", workerId := some 1 }

def sampleStore (status : JobStatus) (workerId claimToken : Option Uuid) : Store where
  jobs := Table.empty.insert
    { id := 0
      sourcePath := "/media/a.mkv"
      library := "movies"
      sourceCodec := "h264"
      qualityValue := 21
      status := status
      workerId := workerId
      claimToken := claimToken }
  media := Table.empty.insert
    { id := "a"
      libraryId := "movies"
      filePath := "/media/a.mkv"
      videoCodec := some "h264"
      transcodeStatus := .queued
      jobId := some 0 }
  workers := Table.empty.insert
    { id := 1
      name := "worker"
      host := "host"
      sendsClaimToken := true
      status := .busy
      lastHeartbeat := some 0 }
  tokens := Table.empty.insert sampleToken
  nextUuid := 3

def sampleRunning : Store := sampleStore .transcoding (some 1) (some 2)

theorem sampleRunning_wellFormed : sampleRunning.WellFormed := .of_rows (by decide +kernel)

end Plays

end TranscodeForge.Scheduler
