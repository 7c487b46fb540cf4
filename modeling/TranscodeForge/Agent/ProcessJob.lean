import TranscodeForge.Derivative.Key
import TranscodeForge.Interaction.Marking

namespace TranscodeForge.ProcessJob

open Interaction Derivative Filesystem

inductive ExceptionKind where
  | http
  | os
  | vmafGate
  | sizeRegression
  | streamLoss
  | pipeline
  | cancelled
  | other
  | exit
deriving DecidableEq, Repr

structure EncodeOutcome where
  vmafMean : Option Rat := none
  vmafPerc5 : Option Rat := none
  predictedVmafMean : Option Rat := none
  predictedVmafPerc5 : Option Rat := none
  resolvedCrf : Option Int := none
  backend : Option String := none
deriving DecidableEq, Repr

structure Raised where
  kind : ExceptionKind
  str : String := ""
  repr : String := ""
  encode : EncodeOutcome := {}
deriving DecidableEq, Repr

-- What `except Exception` catches.
def Raised.isException (e : Raised) : Bool := e.kind != .cancelled && e.kind != .exit

-- What `except (httpx.HTTPError, OSError)` catches.
def Raised.isTransport (e : Raised) : Bool := e.kind == .http || e.kind == .os

inductive Milestone where
  | registerDerivative
  | complete
  | skipped
  | failed
deriving DecidableEq, Repr

def Milestone.isTerminal : Milestone → Bool
  | registerDerivative => false
  | complete | skipped | failed => true

inductive Value where
  | null
  | text (s : String)
  | key (k : List Char)
  | number (n : Int)
  | real (q : Rat)
deriving DecidableEq, Repr

abbrev Payload := List (String × Value)

structure Report where
  jobId : String
  kind : Milestone
  payload : Payload
deriving DecidableEq, Repr

-- The fields `_process_job` reads and writes, and a history variable: the reports that were
-- journaled or, the journal having refused them, sent.
structure AgentState where
  currentJobId : Option String := none
  currentProgress : Rat := 0
  currentPhase : Option String := none
  hasPipelineTask : Bool := false
  shuttingDown : Bool := false
  abortRequested : Bool := false
  abortMessage : String := "Aborted by worker shutdown"
  delivered : List Report := []

structure AgentConfig where
  workerId : Option String
  claimToken : Option String := none
  capabilities : Option (List (String × String))
  preferredBackend : String := "auto"
  pathMap : List (String × String) := []
  vmafSafetyMean : Rat := 90
  vmafSafetyPerc5 : Rat := 80
  crfSearchEnabled : Bool := true

structure PipelineArgs where
  sourcePath : String
  codec : String
  backend : String
  quality : Int
  sourceDuration : Rat
  jobId : String
  workerId : String
  targetVmaf : Option Rat
  vmafSafetyMean : Rat
  vmafSafetyPerc5 : Rat
  crfSearch : Bool
  content : Option String
  targetHeight : Option Int
deriving DecidableEq, Repr

structure PipelineResult where
  sourceSize : Int := 0
  spaceSaved : Int := 0
  encode : EncodeOutcome := {}
deriving DecidableEq, Repr

structure CommitResult where
  outputSize : Int := 0
  spaceSaved : Int := 0
deriving DecidableEq, Repr

-- `outputSize` is `none` where `int()` fails on the answer's field.
structure DerivativeAnswer where
  found : Bool := false
  outputSize : Option Int := none
deriving DecidableEq, Repr

inductive Site where
  | noBackend
  | declined
  | dedup
  | fetchFailed
  | outcome
  | handler
  | aborted
  | finished
deriving DecidableEq, Repr

inductive Call where
  | begin (jobId : String)
  | clear
  | finish
  | getBackend (isS3 : Bool) (bucket keyPrefix : String)
  | monotonic
  | recoverSourcePath (source workerId : String)
  | stopping
  | abortRequested
  | abortMessage
  | lockHolder (source : String)
  | progress (jobId phase phaseDetail : String)
  | sleep (seconds : Rat)
  | checkDerivative (jobId : String) (derivativeKey : List Char)
  | fetch (source : String)
  | runPipeline (args : PipelineArgs)
  | commit (localOutput source : String) (spaceSaved : Int)
  | append (site : Site) (report : Report)
  | sendReport (site : Site) (report : Report)
  | drain (site : Site) (report : Report)
  | cleanup (site : Site)
  | wait

abbrev Call.Answer : Call → Type
  | .begin _ | .clear | .finish | .sleep _ | .wait => Unit
  | .monotonic => Rat
  | .stopping | .abortRequested => Bool
  | .abortMessage => String
  | .recoverSourcePath _ _ => Except Raised SourceRecovery
  | .lockHolder _ => Except Raised (Option (String × Nat))
  | .checkDerivative _ _ => Except Raised DerivativeAnswer
  | .fetch _ => Except Raised String
  | .runPipeline _ => Except Raised PipelineResult
  | .commit _ _ _ => Except Raised CommitResult
  | .getBackend _ _ _ | .progress _ _ _ | .append _ _ | .sendReport _ _ | .drain _ _ | .cleanup _ =>
    Except Raised Unit

-- What a collaborator does: it raises, or it answers.
structure Input where
  fault : Option Raised := none
  recovery : SourceRecovery := .clean
  holder : Option (String × Nat) := none
  now : Rat := 0
  derivative : DerivativeAnswer := {}
  path : String := ""
  result : PipelineResult := {}
  committed : CommitResult := {}

def Input.answers {α : Type} (i : Input) (a : α) : Except Raised α :=
  match i.fault with
  | some e => .error e
  | none => .ok a

def AgentState.deliver (s : AgentState) (i : Input) (report : Report) : AgentState :=
  if i.fault.isSome then s else { s with delivered := s.delivered ++ [report] }

def exec (_ : Unit) : (c : Call) → Input → AgentState → AgentState × c.Answer
  | .begin jobId, _, s =>
    ({ s with currentJobId := some jobId, currentProgress := 0, currentPhase := none }, ())
  | .clear, _, s => ({ s with currentJobId := none }, ())
  | .finish, _, s =>
    ({ s with hasPipelineTask := false, currentJobId := none, currentProgress := 0 }, ())
  | .getBackend _ _ _, i, s => (s, i.answers ())
  | .monotonic, i, s => (s, i.now)
  | .recoverSourcePath _ _, i, s => (s, i.answers i.recovery)
  | .stopping, _, s => (s, s.shuttingDown || s.abortRequested)
  | .abortRequested, _, s => (s, s.abortRequested)
  | .abortMessage, _, s => (s, s.abortMessage)
  | .lockHolder _, i, s => (s, i.answers i.holder)
  | .progress _ _ _, i, s => (s, i.answers ())
  | .sleep _, _, s => (s, ())
  | .checkDerivative _ _, i, s => (s, i.answers i.derivative)
  | .fetch _, i, s => (s, i.answers i.path)
  | .runPipeline _, i, s => ({ s with hasPipelineTask := true }, i.answers i.result)
  | .commit _ _ _, i, s => (s, i.answers i.committed)
  | .append _ report, i, s => (s.deliver i report, i.answers ())
  | .sendReport _ report, i, s => (s.deliver i report, i.answers ())
  | .drain _ _, i, s => (s, i.answers ())
  | .cleanup _, i, s => (s, i.answers ())
  | .wait, _, s => (s, ())

def handler : Handler Unit Call Call.Answer AgentState Input where
  exec := exec
  ready _ c _ := match c with
    | .wait => false
    | _ => true

abbrev Agent := Program Call Call.Answer Raised

def act (c : Call) : Agent c.Answer := .call c .ret

def orRaise {α : Type} (p : Agent (Except Raised α)) : Agent α := p.bind .ofExcept

-- `try: p finally: q`.
def ensuring {α : Type} (p : Agent α) (q : Agent Unit) : Agent α :=
  p.attempt.bind fun outcome => q.bind fun _ => .ofExcept outcome

def backendPriority : List String := ["qsv", "nvenc", "cpu"]

def bestBackendFor (pairs : List (String × String)) (codec preferred : String) : Option String :=
  let available := (pairs.filter (·.1 = codec)).map (·.2)
  if preferred ≠ "auto" ∧ preferred ∈ available then some preferred
  else backendPriority.find? (available.contains ·)

def lockWaitPollSeconds : Rat := 30

def lockWaitMaxSeconds : Rat := 1800

def translatePath (path : String) : List (String × String) → String
  | [] => path
  | (linuxPrefix, localPrefix) :: rest =>
    if linuxPrefix.toList.isPrefixOf path.toList then
      localPrefix ++ String.ofList (path.toList.drop linuxPrefix.length)
    else translatePath path rest

def real (value : Option Rat) : Value := (value.map .real).getD .null

def crf (value : Option Int) : Value := (value.map .number).getD .null

def name (value : Option String) : Value := (value.map .text).getD .null

section Agent

variable (config : AgentConfig) (job : ClaimedJob)

def resolveBackend (codec : String) : Option String :=
  config.capabilities.bind fun pairs => bestBackendFor pairs codec config.preferredBackend

def deliver (site : Site) (kind : Milestone) (payload : Payload) : Agent Unit := do
  let report : Report := ⟨job.id, kind, ("claim_token", name config.claimToken) :: payload⟩
  match ← act (.append site report) with
  | .error e =>
    if e.kind = .os then do
      match ← act (.sendReport site report) with
      | .ok _ => pure ()
      | .error e => if e.isException then pure () else .raise e
    else .raise e
  | .ok _ => do
    match ← act (.drain site report) with
    | .ok _ => pure ()
    | .error e => if e.isException then pure () else .raise e

def getBackendForJob : Agent Unit :=
  if job.backendType = "s3" then do
    if job.s3Bucket = "" then
      .raise { kind := .other, str := "S3 backend selected but s3_bucket not provided" }
    else orRaise (act (.getBackend true job.s3Bucket job.s3Prefix))
  else orRaise (act (.getBackend false "" ""))

def lockWaitMessage (owner : String) (age : Nat) : String :=
  "Source lock is still being refreshed by worker " ++ String.ofList (owner.toList.take 8) ++
    " (last refresh " ++ toString age ++ " s ago) after waiting 30 min. That worker is still " ++
    "running the pipeline on this file even if the scheduler lost contact with it. Retry after " ++
    "it finishes or is stopped."

inductive Waited where
  | found (recovery : SourceRecovery)
  | aborted
deriving DecidableEq, Repr

-- A wait of more polls has not come back yet.
def recoverSourcePathWaiting (source workerId : String) (started : Rat) :
    Nat → Agent (Waited × Option String)
  | 0 => do
    act .wait
    pure (.aborted, none)
  | polls + 1 => do
    let recovery ← orRaise (act (.recoverSourcePath source workerId))
    if recovery ≠ .active then pure (.found recovery, none)
    else if ← act .stopping then do
      let message ← act .abortMessage
      pure (.aborted, some message)
    else do
      let holder ← orRaise (act (.lockHolder source))
      let (owner, age) := holder.getD ("unknown", 0)
      let now ← act .monotonic
      if lockWaitMaxSeconds ≤ now - started then
        pure (.found .active, some (lockWaitMessage owner age))
      else do
        let detail := String.ofList (owner.toList.take 8) ++ " " ++ toString age ++ "s"
        match ← act (.progress job.id "wait" detail) with
        | .error e =>
          if e.isTransport then do
            act (.sleep lockWaitPollSeconds)
            recoverSourcePathWaiting source workerId started polls
          else .raise e
        | .ok _ => do
          act (.sleep lockWaitPollSeconds)
          recoverSourcePathWaiting source workerId started polls

def declineMessages : Waited → Option String
  | .found .attention =>
    some ("A .tf_bak backup and a finished-looking media file both exist for this source — " ++
      "refusing to encode over the backup. Verify the media plays, delete the backup manually, " ++
      "then retry.")
  | .found .restoreFailed =>
    some ("Restoring the original from its .tf_bak backup FAILED — the backup may be the only " ++
      "intact copy of this file. Do NOT delete it; check the worker log for the restore error " ++
      "and reconcile manually.")
  | _ => none

def Waited.declines : Waited → Bool
  | .aborted | .found .active | .found .attention | .found .restoreFailed => true
  | .found .clean | .found .restored | .found .cleaned => false

-- Whether the job ends here: its source path cannot be touched. No message is empty.
def declineUnrecovered (source workerId : String) (polls : Nat) : Agent Bool := do
  let started ← act .monotonic
  let (waited, decline) ← recoverSourcePathWaiting job source workerId started polls
  if waited.declines then do
    match decline <|> declineMessages waited with
    | none => .raise { kind := .other, str := "KeyError" }
    | some message => do
      deliver config job .declined .failed
        [("error_message", .text message), ("retry_count", .number job.retryCount)]
      act .clear
      orRaise (act (.cleanup .declined))
      pure true
  else pure false

def tryDedup (blake2b : List Char → List Char) : Agent (Option DerivativeAnswer) := do
  match ← act (.checkDerivative job.id (derivativeKeyFor blake2b job job.sourcePath)) with
  | .ok answer => pure (if answer.found then some answer else none)
  | .error e => if e.isTransport then pure none else .raise e

-- Whether the job ends here: its rendition exists.
def completeByDedup (blake2b : List Char → List Char) : Agent Bool := do
  match ← tryDedup job blake2b with
  | none => pure false
  | some answer => do
    match answer.outputSize with
    | none => .raise { kind := .other, str := "output_size" }
    | some outputSize => do
      deliver config job .dedup .complete
        [("output_size", .number outputSize), ("space_saved", .number 0),
          ("source_size", .number (job.sourceSize.getD 0))]
      orRaise (act (.cleanup .dedup))
      act .clear
      pure true

variable (safetyMean safetyPerc5 : Option Rat)

def pipelineArgs (workerId codec backend path : String) : PipelineArgs where
  sourcePath := path
  codec := codec
  backend := backend
  quality := job.qualityValue
  sourceDuration := job.sourceDuration.getD 0
  jobId := job.id
  workerId := workerId
  targetVmaf := job.targetVmaf
  vmafSafetyMean := safetyMean.getD config.vmafSafetyMean
  vmafSafetyPerc5 := safetyPerc5.getD config.vmafSafetyPerc5
  crfSearch := config.crfSearchEnabled
  content := if job.mediaType = "anime" then some "anime" else none
  targetHeight := job.targetHeight

def encodeAndReport (blake2b : List Char → List Char) (workerId codec backend path : String) :
    Agent Unit := do
  if ← act .abortRequested then .raise { kind := .cancelled }
  else do
    let result ← orRaise
      (act (.runPipeline (pipelineArgs config job safetyMean safetyPerc5 workerId codec backend path)))
    let isS3 := job.backendType = "s3"
    let spaceSaved := if isS3 then 0 else result.spaceSaved
    let committed ← orRaise (act (.commit path job.sourcePath spaceSaved))
    if isS3 then
      deliver config job .outcome .registerDerivative
        [("derivative_key", .key (derivativeKeyFor blake2b job path)),
          ("output_size", .number committed.outputSize),
          ("achieved_vmaf", real result.encode.vmafMean),
          ("resolved_crf", crf result.encode.resolvedCrf),
          ("backend_used", .text (result.encode.backend.getD backend))]
    else pure ()
    deliver config job .outcome .complete
      [("output_size", .number committed.outputSize), ("space_saved", .number committed.spaceSaved),
        ("source_size", .number result.sourceSize), ("achieved_vmaf", real result.encode.vmafMean),
        ("achieved_vmaf_perc5", real result.encode.vmafPerc5),
        ("predicted_vmaf_mean", real result.encode.predictedVmafMean),
        ("predicted_vmaf_perc5", real result.encode.predictedVmafPerc5),
        ("resolved_crf", crf result.encode.resolvedCrf),
        ("backend_used", .text (result.encode.backend.getD backend))]

-- `wait_for` cuts the delivery of an abort report short: the report is journaled by then.
def reportAbort : Agent Unit := do
  let message ← act .abortMessage
  (deliver config job .aborted .failed
    [("error_message", .text message), ("retry_count", .number job.retryCount)]).rescue fun e =>
      if e.kind = .cancelled then pure () else .raise e

def reportFailure (e : Raised) : Agent Unit :=
  match e.kind with
  | .cancelled => do
    if ← act .abortRequested then reportAbort config job else .raise e
  | .vmafGate =>
    deliver config job .handler .skipped
      [("reason", .text "below_vmaf_floor"), ("error_message", .text e.str),
        ("achieved_vmaf", real e.encode.vmafMean), ("achieved_vmaf_perc5", real e.encode.vmafPerc5),
        ("predicted_vmaf_mean", real e.encode.predictedVmafMean),
        ("predicted_vmaf_perc5", real e.encode.predictedVmafPerc5),
        ("resolved_crf", crf e.encode.resolvedCrf), ("backend_used", name e.encode.backend)]
  | .sizeRegression =>
    deliver config job .handler .skipped
      [("reason", .text "size_regression"), ("error_message", .text e.str),
        ("predicted_vmaf_mean", real e.encode.predictedVmafMean),
        ("predicted_vmaf_perc5", real e.encode.predictedVmafPerc5),
        ("resolved_crf", crf e.encode.resolvedCrf), ("backend_used", name e.encode.backend)]
  | .streamLoss =>
    deliver config job .handler .skipped
      [("reason", .text "stream_loss"), ("error_message", .text e.str),
        ("resolved_crf", crf e.encode.resolvedCrf), ("backend_used", name e.encode.backend)]
  | .pipeline =>
    deliver config job .handler .failed
      [("error_message", .text e.str), ("retry_count", .number (job.retryCount + 1))]
  | .http | .os | .other =>
    deliver config job .handler .failed
      [("error_message", .text ("Unexpected worker error: " ++ e.repr)),
        ("retry_count", .number (job.retryCount + 1))]
  | .exit => .raise e

def finishJob : Agent Unit := do
  act .finish
  orRaise (act (.cleanup .finished))

def fetchAndEncode (blake2b : List Char → List Char) (workerId codec backend source : String) :
    Agent Unit := do
  match ← act (.fetch source) with
  | .error e =>
    if e.isException then do
      deliver config job .fetchFailed .failed
        [("error_message", .text ("Failed to fetch source: " ++ e.repr)),
          ("retry_count", .number (job.retryCount + 1))]
      act .clear
    else .raise e
  | .ok path =>
    ensuring
      ((encodeAndReport config job safetyMean safetyPerc5 blake2b workerId codec backend path).rescue
        (reportFailure config job))
      finishJob

def processWith (blake2b : List Char → List Char) (polls : Nat) (workerId codec backend : String) :
    Agent Unit := do
  getBackendForJob job
  if job.backendType = "s3" then do
    if ← completeByDedup config job blake2b then pure ()
    else
      fetchAndEncode config job safetyMean safetyPerc5 blake2b workerId codec backend job.sourcePath
  else do
    let source := translatePath job.sourcePath config.pathMap
    if ← declineUnrecovered config job source workerId polls then pure ()
    else fetchAndEncode config job safetyMean safetyPerc5 blake2b workerId codec backend source

def codecOf : String := orText job.targetCodec "hevc"

def processJob (blake2b : List Char → List Char) (polls : Nat) : Agent Unit :=
  match config.workerId with
  | none =>
    .raise { kind := .other, str := "worker_id is unset — registration must succeed before this runs" }
  | some workerId => do
    act (.begin job.id)
    match resolveBackend config (codecOf job) with
    | none => do
      deliver config job .noBackend .failed
        [("error_message", .text ("Worker has no backend capable of encoding " ++ codecOf job)),
          ("retry_count", .number (job.retryCount + 1))]
      act .clear
    | some backend =>
      processWith config job safetyMean safetyPerc5 blake2b polls workerId (codecOf job) backend

end Agent

end TranscodeForge.ProcessJob
