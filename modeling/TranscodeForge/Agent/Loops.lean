import TranscodeForge.Agent.Once
import TranscodeForge.Interaction.Recorded
import TranscodeForge.Outbox.Delivery

namespace TranscodeForge.AgentLoops

open Interaction Derivative Outbox
open ProcessJob (AgentState AgentConfig Raised processJob)

def fenceMarginSeconds : Rat := 120

def defaultOrphanGraceSeconds : Rat := 600

def fenceAfterSeconds (orphanGraceSeconds : Option Rat) : Rat :=
  max 0 (orphanGraceSeconds.getD defaultOrphanGraceSeconds - fenceMarginSeconds)

def shutdownAbortMessage : String := "Aborted by worker shutdown"

structure Backoff where
  base : Rat := 1
  cap : Rat := 60
  attempt : Nat := 0

def Backoff.ceiling (b : Backoff) : Rat := min b.cap (b.base * 2 ^ b.attempt)

-- `uniform` is where `random.uniform` falls between 0 and the ceiling.
def Backoff.nextDelay (uniform : Rat) (b : Backoff) : Backoff × Rat :=
  (if b.base * 2 ^ b.attempt < b.cap then { b with attempt := b.attempt + 1 } else b,
    uniform * b.ceiling)

def Backoff.reset (b : Backoff) : Backoff := { b with attempt := 0 }

inductive Loop where
  | jobs
  | heartbeats
  | signals
deriving DecidableEq, Repr

-- What the answer to a claim validates to.
structure Claim where
  job : ClaimedJob
  claimToken : Option String := none
  safetyMean : Option Rat := none
  safetyPerc5 : Option Rat := none

structure Worker where
  agent : AgentState := {}
  claimBackoff : Backoff := { base := 2, cap := 60 }
  now : Rat := 0
  exited : Bool := false
  started : List Loop := []

def Worker.abortCurrentJob (message : String) (w : Worker) : Worker :=
  { w with agent := { w.agent with abortRequested := true, abortMessage := message } }

def Worker.handleShutdown (w : Worker) : Worker :=
  if w.agent.shuttingDown && w.agent.abortRequested then { w with exited := true }
  else if w.agent.shuttingDown then w.abortCurrentJob shutdownAbortMessage
  else { w with agent := { w.agent with shuttingDown := true } }

def Worker.clearConsumedAbort (w : Worker) : Worker :=
  if w.agent.shuttingDown then w
  else
    { w with agent :=
      { w.agent with abortRequested := false, abortMessage := shutdownAbortMessage } }

def Worker.lostFor (w : Worker) (lastContact : Rat) : Rat := w.now - lastContact

-- Whether a failed heartbeat fences the job in flight.
def Worker.fences (w : Worker) (fenceAfter lastContact : Rat) (fenced : Bool) : Bool :=
  !fenced && fenceAfter ≤ w.lostFor lastContact && w.agent.currentJobId.isSome

def lostContactMessage (lostFor : Rat) : String :=
  "Aborted: lost contact with the scheduler for " ++ toString (lostFor.num.tdiv lostFor.den) ++ " s"

def Worker.fence (w : Worker) (fenceAfter lastContact : Rat) (fenced : Bool) : Worker × Bool :=
  if w.fences fenceAfter lastContact fenced then
    (w.abortCurrentJob (lostContactMessage (w.lostFor lastContact)), true)
  else (w, false)

inductive Call where
  | running
  | drainOutbox
  | nextDelay
  | sleep (seconds : Rat)
  | claimJob (workerId : String)
  | job (c : ProcessJob.Call)
  | clearConsumedAbort
  | beating
  | monotonic
  | readState
  | heartbeat (workerId status : String) (currentJobId : Option String)
  | fence (fenceAfter lastContact : Rat) (fenced : Bool)
  | handleShutdown
  | wait

abbrev Call.Answer : Call → Type
  | .running | .beating | .fence _ _ _ => Bool
  | .nextDelay | .monotonic => Rat
  | .sleep _ | .clearConsumedAbort | .handleShutdown | .wait => Unit
  | .drainOutbox => Except Raised DrainResult
  | .claimJob _ => Except Raised (Option (Except Raised Claim))
  | .job c => c.Answer
  | .readState => Except Raised (String × Option String)
  | .heartbeat _ _ _ => Except Raised Unit

-- What the scheduler, the disk and the collaborators of a job do.
structure Input extends ProcessJob.Input where
  drained : DrainResult := .empty
  claimed : Option (Except Raised Claim) := none
  oldestPendingJobId : Option String := none
  uniform : Rat := 0

-- The outbox is read only where no job is current.
def Worker.readState (w : Worker) (i : Input) : Except Raised (String × Option String) :=
  match w.agent.currentJobId.filter (· ≠ "") with
  | some id => .ok ("busy", some id)
  | none => i.toInput.answers ("online", i.oldestPendingJobId)

def exec (_ : Loop) : (c : Call) → Input → Worker → Worker × c.Answer
  | .running, _, w => (w, !w.agent.shuttingDown)
  | .drainOutbox, i, w => (w, i.toInput.answers i.drained)
  | .nextDelay, i, w =>
    let (b, delay) := w.claimBackoff.nextDelay i.uniform
    ({ w with claimBackoff := b }, delay)
  | .sleep _, _, w => (w, ())
  | .claimJob _, i, w =>
    (if i.fault.isSome then w else { w with claimBackoff := w.claimBackoff.reset },
      i.toInput.answers i.claimed)
  | .job c, i, w =>
    let (agent, answer) := ProcessJob.exec () c i.toInput w.agent
    ({ w with agent := agent }, answer)
  | .clearConsumedAbort, _, w => (w.clearConsumedAbort, ())
  | .beating, _, w => (w, !w.agent.shuttingDown || w.agent.currentJobId.isSome)
  | .monotonic, _, w => (w, w.now)
  | .readState, i, w => (w, w.readState i)
  | .heartbeat _ _ _, i, w => (w, i.toInput.answers ())
  | .fence fenceAfter lastContact fenced, _, w => w.fence fenceAfter lastContact fenced
  | .handleShutdown, _, w => (w.handleShutdown, ())
  | .wait, _, w => (w, ())

def handler : Handler Loop Call Call.Answer Worker Input where
  exec := exec
  ready _ c w := !w.exited && match c with
    | .wait | .job .wait => false
    | _ => true

abbrev Agent := Program Call Call.Answer Raised

def act (c : Call) : Agent c.Answer := .call c .ret

def orRaise {α : Type} (p : Agent (Except Raised α)) : Agent α := p.bind .ofExcept

def backOff : Agent Unit := do
  let delay ← act .nextDelay
  act (.sleep delay)

structure LoopConfig where
  agent : AgentConfig
  workerId : String
  heartbeatInterval : Rat := 30
  orphanGraceSeconds : Option Rat := none
  blake2b : List Char → List Char
  polls : Nat

section Loops

variable (config : LoopConfig)

def LoopConfig.forClaim (claim : Claim) : AgentConfig :=
  { config.agent with workerId := some config.workerId, claimToken := claim.claimToken }

def runJob (claim : Claim) : Agent Unit :=
  (processJob (config.forClaim claim) claim.job claim.safetyMean claim.safetyPerc5 config.blake2b
    config.polls).expand fun c => act (.job c)

def processClaim (claim : Claim) : Agent Unit := do
  let outcome ← (runJob config claim).attempt
  act .clearConsumedAbort
  .ofExcept outcome

def claimAndProcess : Agent Unit := do
  match ← orRaise (act (.claimJob config.workerId)) with
  | none => act (.sleep 2)
  | some dict => do
    let claim ← .ofExcept dict
    processClaim config claim

def jobRound : Agent Unit := do
  let drained ← orRaise (act .drainOutbox)
  if drained ≠ .empty then backOff else claimAndProcess config

-- A run of more rounds has not come to its end yet.
def jobLoop : Nat → Agent Unit
  | 0 => act .wait
  | rounds + 1 => do
    if ← act .running then do
      (jobRound config).rescue fun e => if e.isException then backOff else .raise e
      jobLoop rounds
    else pure ()

def beat (fenceAfter : Rat) : Nat → Rat → Bool → Agent Unit
  | 0, _, _ => act .wait
  | beats + 1, lastContact, fenced => do
    if ← act .beating then
      match ← act .readState with
      | .error e =>
        if e.isException then do
          act (.sleep config.heartbeatInterval)
          beat fenceAfter beats lastContact fenced
        else .raise e
      | .ok (status, namedJob) =>
        match ← act (.heartbeat config.workerId status namedJob) with
        | .ok _ => do
          let now ← act .monotonic
          act (.sleep config.heartbeatInterval)
          beat fenceAfter beats now false
        | .error e =>
          if e.isException then do
            let fired ← act (.fence fenceAfter lastContact fenced)
            act (.sleep config.heartbeatInterval)
            beat fenceAfter beats lastContact (fenced || fired)
          else .raise e
    else pure ()

def heartbeatLoop (beats : Nat) : Agent Unit := do
  let lastContact ← act .monotonic
  beat config (fenceAfterSeconds config.orphanGraceSeconds) beats lastContact false

def body : Loop → Nat → Agent Unit
  | .jobs, rounds => jobLoop config rounds
  | .heartbeats, beats => heartbeatLoop config beats
  | .signals, _ => act .handleShutdown

-- `gather` starts each loop once; a signal may come at any time.
def start (t : Loop) (_ : Nat) (w : Worker) : Option Worker :=
  if t = .signals then some w
  else if t ∈ w.started then none
  else some { w with started := t :: w.started }

def worker : System Loop Nat Rat Call Call.Answer Worker Input Raised Unit where
  handler := handler
  body := body config
  start := start
  disturb elapsed w := { w with now := w.now + max 0 elapsed }
  kills _ _ := false

end Loops

section Rungs

variable {config : LoopConfig} {w : Worker} {t : Loop} {c : Call} {i : Input} {β : Type}

abbrev WorkerCall := ThreadCall Loop Nat Call Worker Input

abbrev WorkerRun (config : LoopConfig) (w : Worker) (es : List WorkerCall)
    (d : Config Loop Nat Call Call.Answer Worker Raised Unit) : Prop :=
  Run (worker config) (.initial w) es d

def Worker.Fresh (w : Worker) : Prop :=
  w.agent.currentJobId = none ∧ w.agent.shuttingDown = false ∧ w.agent.abortRequested = false ∧
    w.exited = false ∧ w.started = []

def Call.isShutdown : Call → Bool
  | .handleShutdown => true
  | _ => false

theorem shutdown_of_isShutdown {c : Call} (h : c.isShutdown = true) : c = .handleShutdown := by
  cases c with
  | handleShutdown => rfl
  | _ => cases h

def signals (es : List WorkerCall) : Nat := es.countP fun e => e.op.isShutdown

-- Whether a call is a fence that aborts the current job.
def Call.fires (w : Worker) : Call → Bool
  | .fence fenceAfter lastContact fenced => w.fences fenceAfter lastContact fenced
  | _ => false

def Fired (e : CallRecord Call Worker Input) : Prop := e.op.fires e.pre = true

instance (e : CallRecord Call Worker Input) : Decidable (Fired e) :=
  inferInstanceAs (Decidable (_ = true))

-- The end of a job that forgets the abort it was asked for.
def Consumes (e : CallRecord Call Worker Input) : Prop :=
  match e.op with
  | .clearConsumedAbort => e.pre.agent.shuttingDown = false
  | _ => False

def FenceStands (es : List WorkerCall) : Prop :=
  Since (fun _ e => Fired e.toCallRecord) (fun e => ¬Consumes e.toCallRecord) es

theorem exec_job_shuttingDown (c : ProcessJob.Call) (i : ProcessJob.Input) (s : AgentState) :
    (ProcessJob.exec () c i s).1.shuttingDown = s.shuttingDown := by
  cases c
  case append site report =>
    simp only [ProcessJob.exec, AgentState.deliver]
    split <;> rfl
  case sendReport site report =>
    simp only [ProcessJob.exec, AgentState.deliver]
    split <;> rfl
  all_goals rfl

-- The calls that leave the two requests alone.
def Call.Plain : Call → Prop
  | .clearConsumedAbort | .fence _ _ _ | .handleShutdown => False
  | _ => True

structure SameRequests (w w' : Worker) : Prop where
  shuttingDown : w'.agent.shuttingDown = w.agent.shuttingDown
  abortRequested : w'.agent.abortRequested = w.agent.abortRequested
  exited : w'.exited = w.exited

theorem next_plain (hc : c.Plain) : SameRequests w (handler.next t c i w) := by
  cases c with
  | job c =>
    exact ⟨exec_job_shuttingDown c i.toInput w.agent,
      ProcessJob.exec_abortRequested c i.toInput w.agent, rfl⟩
  | claimJob workerId =>
    simp only [Handler.next, handler, exec]
    split <;> exact ⟨rfl, rfl, rfl⟩
  | clearConsumedAbort => exact hc.elim
  | fence fenceAfter lastContact fenced => exact hc.elim
  | handleShutdown => exact hc.elim
  | _ => exact ⟨rfl, rfl, rfl⟩

@[simp] theorem signals_append {es : List WorkerCall} {e : WorkerCall} :
    signals (es ++ [e]) = signals es + if e.op.isShutdown then 1 else 0 := by
  simp [signals, List.countP_append, List.countP_cons]

theorem fenceStands_append {es : List WorkerCall} {e : WorkerCall} :
    FenceStands (es ++ [e]) ↔
      Fired e.toCallRecord ∨ ¬Consumes e.toCallRecord ∧ FenceStands es :=
  since_append

-- What the two requests say of the signals and the fences so far.
structure Rung (w : Worker) (es : List WorkerCall) : Prop where
  shuttingDown : w.agent.shuttingDown = true ↔ 0 < signals es
  abortRequested : w.agent.abortRequested = true ↔ 2 ≤ signals es ∨ FenceStands es
  exited : w.exited = true → 2 ≤ signals es
  bounded : signals es ≤ if w.exited then 3 else 2

theorem Rung.initial (hw : w.Fresh) : Rung w [] := by
  obtain ⟨-, hshutting, habort, hexited, -⟩ := hw
  have hnone : ¬FenceStands [] := by
    rintro ⟨xs, e, ys, heq, -⟩
    cases xs <;> cases heq
  constructor
  · simp [hshutting, signals]
  · simp [habort, signals, hnone]
  · simp [hexited]
  · simp [signals]

theorem Rung.same {es : List WorkerCall} {w' : Worker} (h : Rung w es) (hsame : SameRequests w w') :
    Rung w' es := by
  constructor
  · rw [hsame.shuttingDown, h.shuttingDown]
  · rw [hsame.abortRequested, h.abortRequested]
  · rw [hsame.exited]
    exact h.exited
  · rw [hsame.exited]
    exact h.bounded

theorem Rung.append {es : List WorkerCall} {e : WorkerCall} {w' : Worker} (h : Rung w' es)
    (hop : e.op.isShutdown = false) (hfired : ¬Fired e.toCallRecord)
    (hconsumes : ¬Consumes e.toCallRecord) : Rung w' (es ++ [e]) := by
  have hsignals : signals (es ++ [e]) = signals es := by simp [hop]
  have hstands : FenceStands (es ++ [e]) ↔ FenceStands es := by
    simp [fenceStands_append, hfired, hconsumes]
  constructor
  · rw [hsignals]
    exact h.shuttingDown
  · rw [hsignals, hstands]
    exact h.abortRequested
  · rw [hsignals]
    exact h.exited
  · rw [hsignals]
    exact h.bounded

theorem Rung.call {es : List WorkerCall} {e : WorkerCall}
    (hpost : e.post = handler.next e.thread e.op e.input e.pre) (hready : e.pre.exited = false)
    (h : Rung e.pre es) :
    Rung e.post (es ++ [e]) := by
  obtain ⟨⟨c, i, w, w'⟩, t, r⟩ := e
  obtain rfl : w' = handler.next t c i w := hpost
  have halive : w.exited = false := hready
  have hbounded : signals es ≤ 2 := by simpa [halive] using h.bounded
  cases c with
  | clearConsumedAbort =>
    change Rung w.clearConsumedAbort _
    cases hshutting : w.agent.shuttingDown with
    | true =>
      have hsame : w.clearConsumedAbort = w := by simp [Worker.clearConsumedAbort, hshutting]
      rw [hsame]
      exact h.append rfl Bool.false_ne_true (by simp [Consumes, hshutting])
    | false =>
      have hzero : signals es = 0 := by simpa [hshutting] using h.shuttingDown
      constructor
      · simp [Worker.clearConsumedAbort, hshutting, hzero, Call.isShutdown]
      · simp [Worker.clearConsumedAbort, hshutting, hzero, Call.isShutdown, fenceStands_append, Fired, Call.fires,
          Consumes]
      · intro hexited
        have hbefore := h.exited (by simpa [Worker.clearConsumedAbort, hshutting] using hexited)
        omega
      · simp [Worker.clearConsumedAbort, hshutting, hzero, Call.isShutdown]
  | fence fenceAfter lastContact fenced =>
    change Rung (w.fence fenceAfter lastContact fenced).1 _
    cases hfires : w.fences fenceAfter lastContact fenced with
    | true =>
      constructor
      · simpa [Worker.fence, hfires, Worker.abortCurrentJob, Call.isShutdown] using h.shuttingDown
      · simp [Worker.fence, hfires, Worker.abortCurrentJob, fenceStands_append, Fired, Call.fires]
      · simpa [Worker.fence, hfires, Worker.abortCurrentJob, Call.isShutdown] using h.exited
      · simpa [Worker.fence, hfires, Worker.abortCurrentJob, Call.isShutdown] using h.bounded
    | false =>
      have hsame : (w.fence fenceAfter lastContact fenced).1 = w := by simp [Worker.fence, hfires]
      rw [hsame]
      exact h.append rfl (by simp [Fired, Call.fires, hfires]) fun hconsumes => hconsumes
  | handleShutdown =>
    change Rung w.handleShutdown _
    have hshutdown := h.shuttingDown
    have habort := h.abortRequested
    cases hshutting : w.agent.shuttingDown with
    | false =>
      have hzero : signals es = 0 := by simpa [hshutting] using hshutdown
      constructor
      · simp [Worker.handleShutdown, hshutting, Call.isShutdown]
      · simpa [Worker.handleShutdown, hshutting, Call.isShutdown, hzero, fenceStands_append, Fired, Call.fires,
          Consumes] using habort
      · intro hexited
        have hbefore := h.exited (by simpa [Worker.handleShutdown, hshutting] using hexited)
        omega
      · simp [Worker.handleShutdown, hshutting, Call.isShutdown, hzero, halive]
    | true =>
      have htwo : 2 ≤ signals es + 1 := by
        have hpos := hshutdown.mp hshutting
        omega
      cases hasked : w.agent.abortRequested with
      | true =>
        have hexits : w.handleShutdown = { w with exited := true } := by
          simp [Worker.handleShutdown, hshutting, hasked]
        rw [hexits]
        constructor
        · simp [hshutting, Call.isShutdown]
        · simp [hasked, Call.isShutdown, htwo]
        · simp [Call.isShutdown, htwo]
        · have hthree : signals es + 1 ≤ 3 := by omega
          simpa [Call.isShutdown] using hthree
      | false =>
        have haborts : w.handleShutdown = w.abortCurrentJob shutdownAbortMessage := by
          simp [Worker.handleShutdown, hshutting, hasked]
        rw [haborts]
        constructor
        · simp [Worker.abortCurrentJob, hshutting, Call.isShutdown]
        · simp [Worker.abortCurrentJob, Call.isShutdown, htwo]
        · simp [Worker.abortCurrentJob, Call.isShutdown, htwo]
        · have hone : signals es < 2 := by
            by_contra hge
            have hstands := habort.mpr (.inl (by omega))
            simp [hasked] at hstands
          simp [Worker.abortCurrentJob, Call.isShutdown, halive]
          omega
  | _ => exact (h.same (next_plain (by trivial))).append rfl Bool.false_ne_true id

theorem ready_alive {c : Call} {w : Worker} (h : handler.ready t c w = true) : w.exited = false := by
  have halive := (Bool.and_eq_true_iff.mp h).1
  simpa using halive

theorem run_rung {es : List WorkerCall} {d : Config Loop Nat Call Call.Answer Worker Raised Unit}
    (h : WorkerRun config w es d) (hw : w.Fresh) :
    (∀ xs e ys, es = xs ++ e :: ys → Rung e.pre xs) ∧ Rung d.state es := by
  refine h.history_invariant (P := Rung) (A := fun _ e => e.pre.exited = false) ?_ (.initial hw) ?_ ?_
    fun e es hpost halive hrung => hrung.call hpost halive
  · rintro xs e ys rfl
    exact ready_alive (h.ready e (by simp))
  · intro t r w w' es hrung hs
    refine hrung.same ?_
    simp only [worker, start] at hs
    split at hs
    · cases hs
      exact ⟨rfl, rfl, rfl⟩
    · split at hs
      · cases hs
      · cases hs
        exact ⟨rfl, rfl, rfl⟩
  · intro elapsed w es hrung
    exact hrung.same ⟨rfl, rfl, rfl⟩

-- The first signal drains, the second aborts unless a fence has, and the third ends the process.
theorem shutdown_rungs {es : List WorkerCall}
    {d : Config Loop Nat Call Call.Answer Worker Raised Unit} (h : WorkerRun config w es d)
    (hw : w.Fresh) :
    (∀ xs e ys, es = xs ++ e :: ys → e.op = .handleShutdown →
      (signals xs = 0 →
        e.post = { e.pre with agent := { e.pre.agent with shuttingDown := true } }) ∧
      (signals xs = 1 → (e.post.exited = true ↔ FenceStands xs) ∧
        (¬FenceStands xs → e.post = e.pre.abortCurrentJob shutdownAbortMessage)) ∧
      (signals xs = 2 → e.post.exited = true)) ∧
    (d.state.exited = true → 2 ≤ signals es) ∧ signals es ≤ 3 := by
  obtain ⟨hrungs, hlast⟩ := run_rung h hw
  refine ⟨fun xs e ys heq hop => ?_, hlast.exited, ?_⟩
  · obtain ⟨⟨c, i, w₀, w₁⟩, t, r⟩ := e
    obtain rfl : c = .handleShutdown := hop
    have hmem : (⟨⟨.handleShutdown, i, w₀, w₁⟩, t, r⟩ : WorkerCall) ∈ es := by simp [heq]
    obtain rfl : w₁ = w₀.handleShutdown := h.post_eq _ hmem
    have halive : w₀.exited = false := ready_alive (h.ready _ hmem)
    have hrung : Rung w₀ xs := hrungs _ _ _ heq
    refine ⟨fun hzero => ?_, fun hone => ?_, fun htwo => ?_⟩
    · have hshutting : w₀.agent.shuttingDown = false := by
        simpa [hzero] using hrung.shuttingDown
      simp [Worker.handleShutdown, hshutting]
    · have hshutting : w₀.agent.shuttingDown = true := hrung.shuttingDown.mpr (by omega)
      have hasked : w₀.agent.abortRequested = true ↔ FenceStands xs := by
        simpa [hone] using hrung.abortRequested
      rw [← hasked]
      cases hcase : w₀.agent.abortRequested with
      | true => simp [Worker.handleShutdown, hshutting, hcase]
      | false => simp [Worker.handleShutdown, hshutting, hcase, Worker.abortCurrentJob, halive]
    · have hshutting : w₀.agent.shuttingDown = true := hrung.shuttingDown.mpr (by omega)
      have hasked : w₀.agent.abortRequested = true := hrung.abortRequested.mpr (.inl (by omega))
      simp [Worker.handleShutdown, hshutting, hasked]
  · have hbound := hlast.bounded
    split at hbound <;> omega

end Rungs

section Sample

open ProcessJob (sampleConfig sampleClaim)

def sampleLoops : LoopConfig where
  agent := sampleConfig
  workerId := "worker"
  blake2b := id
  polls := 1

abbrev WorkerMove := Move Loop Nat Rat Input

abbrev Played := List WorkerCall × Config Loop Nat Call Call.Answer Worker Raised Unit

def play (moves : List WorkerMove) : Option Played :=
  (Config.initial {}).playAll (worker sampleLoops) moves

theorem play_run {moves : List WorkerMove} {p : Played} (h : play moves = some p) :
    WorkerRun sampleLoops {} p.1 p.2 :=
  Run.playAll .refl h

theorem fresh_initial : ({} : Worker).Fresh := ⟨rfl, rfl, rfl, rfl, rfl⟩

def claimsJob : WorkerMove := .call .jobs { claimed := some (.ok { job := sampleClaim }) }

-- Past the fence's threshold since the last contact, a heartbeat fails.
def partition : List WorkerMove :=
  [.disturb 480, .call .heartbeats {}, .call .heartbeats {},
    .call .heartbeats { fault := some { kind := .http } }, .call .heartbeats {}]

def signal : List WorkerMove := [.start .signals 0, .call .signals {}, .retire .signals]

def sampleFence : List WorkerMove :=
  [.start .heartbeats 1, .call .heartbeats {}, .start .jobs 1, .call .jobs {}, .call .jobs {},
    claimsJob, .call .jobs {}] ++ partition ++ signal ++ signal

def fencedShutdown : Played := (play sampleFence).get (by decide +kernel)

def secondSignal : WorkerCall := fencedShutdown.1[10]?.get (by decide +kernel)

theorem shutdown_rungs_fenced :
    FenceStands (fencedShutdown.1.take 10) ∧ signals fencedShutdown.1 ≤ 3 := by
  have hrun := play_run (p := fencedShutdown) (Option.some_get _).symm
  obtain ⟨hrungs, -, hthree⟩ := shutdown_rungs hrun fresh_initial
  have hsplit : fencedShutdown.1 = _ := split_at (e := secondSignal) (Option.some_get _).symm
  have hone : signals (fencedShutdown.1.take 10) = 1 := by decide +kernel
  have hop := shutdown_of_isShutdown (c := secondSignal.op) (by decide +kernel)
  have hiff := ((hrungs _ _ _ hsplit hop).2.1 hone).1
  exact ⟨hiff.mp (by decide +kernel), hthree⟩

end Sample

end TranscodeForge.AgentLoops
