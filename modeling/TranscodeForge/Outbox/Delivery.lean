import TranscodeForge.Outbox.Journal

namespace TranscodeForge.Outbox

open Interaction Storage SourcePath

def poisonAttempts : Int := 25

def poisonCooldownS : Rat := 600

inductive DrainResult where
  | empty
  | blocked
  | authBlocked
deriving DecidableEq, Repr

-- `None` as the claim token is the JSON text `null`.
def stampClaim (claimToken : Option String) (payload : Payload) : Payload :=
  ("claim_token", (payload.lookup "claim_token").getD (claimToken.getD "null")) ::
    payload.filter fun field => field.1 != "claim_token"

-- The heartbeats that fall into an await each read the outbox.
def heartbeats : Courier Unit := do
  let n ← act .drain .heartbeats
  Program.each (List.range n) fun _ => do
    let _ ← entries
    pure ()

-- A report of an unknown kind is not sent: the ValueError is retryable.
def sendReport (report : Option Nat) (jobId kind : String) (payload : Payload) : Courier Reply := do
  if kind ∈ milestoneKinds then do
    let reply ← act .drain (.send report jobId kind payload)
    heartbeats
    pure reply
  else pure .error

def isParked (now : Rat) (entry : OutboxEntry) : Bool :=
  poisonAttempts ≤ entry.body.attempts && now - entry.body.lastAttemptAt < poisonCooldownS

-- The clock is read only for an entry that has the attempts.
def readParked (entry : OutboxEntry) : Courier Bool := do
  if poisonAttempts ≤ entry.body.attempts then do
    let now ← act .drain .now
    pure (isParked now entry)
  else pure false

def drainEach : List OutboxEntry → List String → Bool → Courier Bool
  | [], _, authBlocked => pure authBlocked
  | entry :: rest, blocked, authBlocked => do
    if entry.body.jobId ∈ blocked then drainEach rest blocked authBlocked
    else do
      let parked ← readParked entry
      if parked then drainEach rest (entry.body.jobId :: blocked) authBlocked
      else do
        let reply ← sendReport (some entry.body.report) entry.body.jobId entry.body.kind
          entry.body.payload
        match classifyError reply with
        | none => do
          delete entry
          drainEach rest blocked authBlocked
        | some .auth => do
          bumpAttempts entry
          drainEach rest (entry.body.jobId :: blocked) true
        | some .terminal => do
          delete entry
          drainEach rest blocked authBlocked
        | some .retryable => do
          bumpAttempts entry
          drainEach rest (entry.body.jobId :: blocked) authBlocked

def liveEntries : List OutboxEntry → Courier (List OutboxEntry)
  | [] => pure []
  | entry :: rest => do
    let parked ← readParked entry
    let live ← liveEntries rest
    pure (if parked then live else entry :: live)

def verdict (remaining : List OutboxEntry) (authBlocked : Bool) : Courier DrainResult := do
  if remaining = [] then pure .empty
  else if authBlocked then pure .authBlocked
  else do
    let live ← liveEntries remaining
    pure (if live = [] then .empty else .blocked)

def drainOutbox : Courier DrainResult := do
  let listed ← entries
  let authBlocked ← drainEach listed [] false
  let remaining ← entries
  verdict remaining authBlocked

def deliver (claimToken : Option String) (jobId kind : String) (payload : Payload) :
    Courier Unit := do
  let stamped := stampClaim claimToken payload
  match ← (append jobId kind stamped).attempt with
  | .error (.os _) => do
    let _ ← sendReport none jobId kind stamped
    pure ()
  | .error e => .raise e
  | .ok _ => do
    let _ ← drainOutbox.attempt
    pure ()

-- What a worker process does with its outbox. A run interleaves them in any order; each may be
-- cut short by a crash, and the next one then belongs to the restarted process.
inductive Operation where
  | append (jobId kind : String) (payload : Payload)
  | deliver (claimToken : Option String) (jobId kind : String) (payload : Payload)
  | drain
  | entries
deriving DecidableEq

def Operation.program : Operation → Courier Unit
  | .append jobId kind payload => do
    let _ ← Outbox.append jobId kind payload
    pure ()
  | .deliver claimToken jobId kind payload => Outbox.deliver claimToken jobId kind payload
  | .drain => do
    let _ ← drainOutbox
    pure ()
  | .entries => do
    let _ ← Outbox.entries
    pure ()

abbrev DiskCall := CallRecord Call Disk Input

abbrev Execution {α : Type} (p : Courier α) (d : Disk) (es : List DiskCall) (p' : Courier α)
    (d' : Disk) : Prop := Exec handler () (· = ·) p d es p' d'

inductive OutboxRun (opening : Disk) : List DiskCall → Disk → Prop
  | start : OutboxRun opening [] opening
  | step {es es' : List DiskCall} {d d' : Disk} {p : Courier Unit} (op : Operation) :
      OutboxRun opening es d → Execution op.program d es' p d' →
      OutboxRun opening (es ++ es') d'

end TranscodeForge.Outbox
