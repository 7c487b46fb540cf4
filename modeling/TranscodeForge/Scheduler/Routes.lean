import TranscodeForge.Scheduler.Statements

namespace TranscodeForge.Scheduler

open Relational Interaction

structure HttpError where
  statusCode : Nat
  detail : String
deriving DecidableEq, Repr

abbrev Block (α : Type) := Program Statement Statement.Answer Empty α

-- A block is one operation of its own where the database runs it in a transaction of its own.
inductive Op where
  | statement (q : Statement)
  | reportBlock (p : Block Bool)
  | batchBlock (p : Block (Nat × Nat))

abbrev Op.Answer : Op → Type
  | .statement q => q.Answer
  | .reportBlock _ => Bool
  | .batchBlock _ => Nat × Nat

abbrev Route (α : Type) := Program Op Op.Answer HttpError α

namespace Block

variable {α : Type}

def commit : Block α → Store → Store × α
  | .ret a, s => (s, a)
  | .raise e, _ => e.elim
  | .call q k, s =>
    let (s', a) := q.exec s
    commit (k a) s'

def interleaved : Block α → Route α
  | .ret a => .ret a
  | .raise e => e.elim
  | .call q k => .call (.statement q) fun a => interleaved (k a)

end Block

def Op.exec (s : Store) : (op : Op) → Store × op.Answer
  | .statement q => q.exec s
  | .reportBlock p => Block.commit p s
  | .batchBlock p => Block.commit p s

-- Postgres pins a connection to a block; on SQLite every coroutine shares the one connection,
-- and the statements of other requests fall between those of a block.
inductive Isolation where
  | isolated
  | shared
deriving DecidableEq

def run {ε : Type} (q : Statement) : Program Op Op.Answer ε q.Answer := .call (.statement q) .ret

def ask (q : Statement) : Block q.Answer := .call q .ret

def reportTransaction : Isolation → Block Bool → Route Bool
  | .isolated, p => .call (.reportBlock p) .ret
  | .shared, p => Block.interleaved p

def batchTransaction : Isolation → Block (Nat × Nat) → Route (Nat × Nat)
  | .isolated, p => .call (.batchBlock p) .ret
  | .shared, p => Block.interleaved p

inductive Response where
  | noContent
  | claimed (job : Option Job)
  | registered (workerId : Uuid)
  | derivative (found : Bool) (outputSize : Option Nat)
  | job (updated : Option Job)
  | queued (queued skipped : Nat)
  | removed (removed released : Nat)
  | cancelled (count : Nat)
deriving DecidableEq

section WorkerRoutes

structure RegisterRequest where
  name : String
  host : String
  supportedCodecs : List String := []
  supportsDownscale : Bool := false
  sendsClaimToken : Bool := false
deriving DecidableEq

structure HeartbeatRequest where
  workerId : Uuid
  status : WorkerStatus := .online
  currentJobId : Option Uuid := none
deriving DecidableEq

structure ProgressRequest where
  claimToken : Option Uuid := none
  progress : Rat := 0
  phase : Option String := none
  phasePct : Option Rat := none
  phaseDetail : Option String := none
deriving DecidableEq

structure Scores where
  achievedVmaf : Option Rat := none
  achievedVmafPerc5 : Option Rat := none
  predictedVmafMean : Option Rat := none
  predictedVmafPerc5 : Option Rat := none
  resolvedCrf : Option Nat := none
  backendUsed : Option String := none
deriving DecidableEq

structure CompleteRequest extends Scores where
  claimToken : Option Uuid := none
  outputSize : Nat := 0
  spaceSaved : Nat := 0
  sourceSize : Nat := 0
deriving DecidableEq

structure SkippedRequest extends Scores where
  claimToken : Option Uuid := none
  reason : String
  errorMessage : String := ""
deriving DecidableEq

structure FailedRequest where
  claimToken : Option Uuid := none
  errorMessage : String := ""
  retryCount : Nat := 0
deriving DecidableEq

def maxErrorMessageLen : Nat := 10000

def truncated (message : String) : String := String.ofList (message.toList.take maxErrorMessageLen)

def Scores.fields (s : Scores) : JobFields where
  achievedVmaf := some s.achievedVmaf
  achievedVmafPerc5 := some s.achievedVmafPerc5
  predictedVmafMean := some s.predictedVmafMean
  predictedVmafPerc5 := some s.predictedVmafPerc5
  resolvedCrf := some s.resolvedCrf
  backendUsed := some s.backendUsed

def requireWorkerIdentity (owner : Option Uuid) (workerId : Uuid) : Route Unit :=
  if owner ≠ some workerId then
    .raise ⟨403, "worker_id does not match this token's registered worker"⟩
  else .ret ()

def requireOwnedJob (owner : Option Uuid) (jobId : Uuid) : Route Job := do
  match ← run (.getJob jobId) with
  | none => .raise ⟨404, "Job not found"⟩
  | some job =>
    if owner = none ∨ job.workerId ≠ owner then
      .raise ⟨403, "Job is not assigned to this worker"⟩
    else .ret job

def requireClaimToken (owner claimToken : Option Uuid) : Route (Option Uuid) :=
  match claimToken, owner with
  | some token, _ => .ret (some token)
  | none, none => .ret none
  | none, some workerId => do
    let worker ← run (.getWorker workerId)
    if worker.any (·.sendsClaimToken) then
      .raise ⟨403, "Report is missing the claim token issued with this job"⟩
    else .ret none

def isDuplicateTerminalReport (job : Job) (incoming : JobStatus) : Except HttpError Bool :=
  if job.status = incoming then .ok true
  else if job.status.isTerminal then
    .error ⟨409, s!"Job is already {job.status.value}; refusing {incoming.value}"⟩
  else .ok false

def answerLostFinalize (jobId : Uuid) (incoming : JobStatus) : Route Unit := do
  match ← run (.getJob jobId) with
  | none => .raise ⟨404, "Job not found"⟩
  | some job => do
    let duplicate ← .ofExcept (isDuplicateTerminalReport job incoming)
    if duplicate then .ret () else .raise ⟨403, "Job is not assigned to this worker"⟩

def updateOutputByJob (jobId : Uuid) (videoCodec : String) (fileSize : Nat) :
    Option Nat → Block Unit
  | none => ask (.updateOutput jobId videoCodec fileSize)
  | some height => do
    let rows ← ask (.selectSwapped jobId)
    .each rows fun m =>
      ask (.describeOutput m.id videoCodec fileSize
        (scaledWidth m.width m.height height) height)

-- The transition, and the catalog's part of it when it was won.
def finalizing (jobId : Uuid) (job : Job) (incoming : JobStatus) (claimToken : Option Uuid)
    (fields : Instant → JobFields) (sync : Block Unit) : Block Bool := do
  let completedAt ← ask .utcNow
  let won ← ask
    (.finalizeJob jobId job.workerId incoming claimToken (fields completedAt))
  if won then do
    sync
    .ret true
  else .ret false

def completeBlock (jobId : Uuid) (body : CompleteRequest) (job : Job)
    (claimToken : Option Uuid) : Block Bool :=
  finalizing jobId job .complete claimToken
    (fun now => { body.fields with
      outputSize := some (some body.outputSize)
      spaceSaved := some body.spaceSaved
      sourceSize := some body.sourceSize
      progress := some 1
      completedAt := some now }) do
    ask (.updateStatusByJob jobId .complete none)
    updateOutputByJob jobId job.targetCodec body.outputSize job.targetHeight

def skipBlock (jobId : Uuid) (body : SkippedRequest) (job : Job) (claimToken : Option Uuid) :
    Block Bool :=
  finalizing jobId job .skipped claimToken
    (fun now => { body.fields with
      errorMessage := some
        (if body.errorMessage.isEmpty then none else some (truncated body.errorMessage))
      completedAt := some now }) do
    ask (.recordSkip
      { filePath := job.sourcePath
        library := job.library
        libraryId := job.libraryId
        codec := job.sourceCodec
        resolution := job.sourceResolution
        fileSize := job.sourceSize
        skipReason := body.reason
        createdAt := 0
        updatedAt := 0 })
    ask (.updateStatusByJob jobId .skipped (some body.reason))

def failBlock (jobId : Uuid) (body : FailedRequest) (job : Job) (claimToken : Option Uuid) :
    Block Bool :=
  finalizing jobId job .failed claimToken
    (fun now =>
      { errorMessage := some (some (truncated body.errorMessage))
        retryCount := some body.retryCount
        completedAt := some now })
    (ask (.updateStatusByJob jobId .needsTranscode none))

variable (mode : Isolation) (token : WorkerToken)

def terminalReport (jobId : Uuid) (incoming : JobStatus) (claimToken : Option Uuid)
    (block : Job → Option Uuid → Block Bool) : Route Response := do
  let job ← requireOwnedJob token.workerId jobId
  let duplicate ← .ofExcept (isDuplicateTerminalReport job incoming)
  if duplicate then .ret .noContent
  else do
    let attempt ← requireClaimToken token.workerId claimToken
    let won ← reportTransaction mode (block job attempt)
    if won then .ret .noContent
    else do
      answerLostFinalize jobId incoming
      .ret .noContent

def completeJob (jobId : Uuid) (body : CompleteRequest) : Route Response :=
  terminalReport mode token jobId .complete body.claimToken (completeBlock jobId body)

def skipJob (jobId : Uuid) (body : SkippedRequest) : Route Response :=
  terminalReport mode token jobId .skipped body.claimToken (skipBlock jobId body)

def failJob (jobId : Uuid) (body : FailedRequest) : Route Response :=
  terminalReport mode token jobId .failed body.claimToken (failBlock jobId body)

def checkDerivative (jobId : Uuid) (derivativeKey : String) (claimToken : Option Uuid) :
    Route Response := do
  let job ← requireOwnedJob token.workerId jobId
  match ← run (.lookupByKey derivativeKey) with
  | none => .ret (.derivative false none)
  | some existing => do
    let duplicate ← .ofExcept (isDuplicateTerminalReport job .complete)
    if duplicate then .ret (.derivative true existing.outputSize)
    else do
      let attempt ← requireClaimToken token.workerId claimToken
      let completedAt ← run .utcNow
      let won ← run (.finalizeJob jobId job.workerId .complete attempt
        { outputSize := some existing.outputSize
          spaceSaved := some 0
          progress := some 1
          completedAt := some completedAt })
      if won then .ret (.derivative true existing.outputSize)
      else do
        answerLostFinalize jobId .complete
        .ret (.derivative true existing.outputSize)

def ProgressRequest.fields (body : ProgressRequest) : JobFields :=
  match body.phase with
  | none => { progress := some body.progress }
  | some phase =>
    { progress := some body.progress
      phase := some (some phase)
      phasePct := some body.phasePct
      phaseDetail := some body.phaseDetail }

def progress (jobId : Uuid) (body : ProgressRequest) : Route Response := do
  let job ← requireOwnedJob token.workerId jobId
  let attempt ← requireClaimToken token.workerId body.claimToken
  let won ← run (.reportProgress jobId job.workerId attempt body.fields)
  if won then .ret .noContent else .raise ⟨403, "Job is not running this attempt"⟩

def heartbeat (body : HeartbeatRequest) : Route Response := do
  requireWorkerIdentity token.workerId body.workerId
  run (.updateWorkerHeartbeat body.workerId body.status body.currentJobId)
  .ret .noContent

def claimJob (workerId : Uuid) : Route Response := do
  requireWorkerIdentity token.workerId workerId
  let paused ← run .isQueuePaused
  if paused then .ret (.claimed none)
  else do
    let worker ← run (.getWorker workerId)
    let job ← run (.claimNextJob workerId
      ((worker.map Worker.supportedCodecs).getD ["hevc"])
      ((worker.map Worker.supportsDownscale).getD false))
    .ret (.claimed job)

def workerIsLive (now : Instant) (w : Worker) : Bool :=
  w.status.isAlive && w.lastHeartbeat.any fun t => decide (now < t + rebindLiveness)

-- Which worker row the registration may go on with; none when it has to bind the token anew.
def registrationTarget (body : RegisterRequest) : Route (Option Uuid) :=
  match token.workerId with
  | none => .ret none
  | some bound => do
    match ← run (.getWorker bound) with
    | none => .ret none
    | some existing =>
      if existing.name = body.name ∧ existing.host = body.host then .ret (some bound)
      else do
        let now ← run .utcNow
        if workerIsLive now existing then
          .raise ⟨409, s!"Token is already bound to a live worker ({existing.name}@" ++
            s!"{existing.host}). Issue a separate token for each worker."⟩
        else .ret (some bound)

def bindWorker : Option Uuid → Route Uuid
  | some bound => .ret bound
  | none => do
    let workerId ← run .uuid4
    let claimed ← run (.linkWorker token.tokenHash workerId token.workerId)
    if claimed then .ret workerId
    else .raise ⟨409, "Token was bound to another worker by a concurrent registration. " ++
      "Issue a separate token for each worker."⟩

def register (body : RegisterRequest) : Route Response := do
  let bound ← registrationTarget token body
  let workerId ← bindWorker token bound
  run (.upsertWorker
    { id := workerId
      name := body.name
      host := body.host
      supportedCodecs :=
        if body.supportedCodecs.isEmpty then ["hevc"] else body.supportedCodecs
      supportsDownscale := body.supportsDownscale
      sendsClaimToken := body.sendsClaimToken
      status := .online })
  let _ ← run (.releaseJobs workerId)
  .ret (.registered workerId)

end WorkerRoutes

section JobRoutes

def retryUpdate (job : Job) : JobUpdate where
  status := some .pending
  workerId := some none
  claimToken := some none
  progress := some 0
  errorMessage := some none
  retryCount := some (job.retryCount + 1)

def retryJob (jobId : Uuid) : Route Response := do
  match ← run (.getJob jobId) with
  | none => .raise ⟨404, "Job not found"⟩
  | some job =>
    if job.status ≠ .failed ∧ job.status ≠ .cancelled then
      .raise ⟨400, s!"Cannot retry job with status '{job.status.value}'"⟩
    else do
      let excluded ← run (.isExcluded job.sourcePath)
      if excluded then
        .raise ⟨400, "This file is on the don't-try-again list. Remove the exclusion first."⟩
      else do
        run (.updateJob jobId (retryUpdate job))
        let updated ← run (.getJob jobId)
        run (.updateStatusByJob jobId .queued none)
        .ret (.job updated)

inductive CancelError where
  | lookup (detail : String)
  | value (detail : String)
deriving DecidableEq

def cancelWaitingJob (jobId : Uuid) : Program Op Op.Answer CancelError Job := do
  let cancelled ← run (.cancelIfWaiting jobId)
  if cancelled then do
    run (.updateStatusByJob jobId .needsTranscode none)
    match ← run (.getJob jobId) with
    | none => .raise (.lookup "Job not found")
    | some job => .ret job
  else do
    match ← run (.getJob jobId) with
    | none => .raise (.lookup "Job not found")
    | some job => .raise (.value s!"Cannot cancel job with status '{job.status.value}'")

def cancelJob (jobId : Uuid) : Route Response :=
  ((cancelWaitingJob jobId).bind fun job => .ret (.job (some job))).rescue fun
    | .lookup detail => .raise ⟨404, detail⟩
    | .value detail => .raise ⟨400, detail⟩

def cancelAllPending : Route Response := do
  let now ← run .utcNow
  run (.cancelAllMedia now)
  let count ← run .cancelAllJobs
  .ret (.cancelled count)

def deleteChunks : List (List Uuid) → Nat × Nat → Block (Nat × Nat)
  | [], counts => .ret counts
  | chunk :: chunks, (removed, released) => do
    let unlinked ← ask (.releaseMedia chunk)
    let deleted ← ask (.deleteJobRows chunk)
    deleteChunks chunks (removed + deleted, released + unlinked)

def deleteJobsBlock (statuses : Option (List JobStatus)) : Block (Nat × Nat) := do
  let jobIds ← ask (.selectJobIds statuses)
  deleteChunks (jobIds.toChunks deleteChunk) (0, 0)

variable (mode : Isolation)

def deleteJobs (statuses : Option (List JobStatus)) : Route Response :=
  if statuses = some [] then .ret (.removed 0 0)
  else do
    let (removed, released) ← batchTransaction mode (deleteJobsBlock statuses)
    .ret (.removed removed released)

def clearCompleted : Route Response := deleteJobs mode (some [.complete, .cancelled])

def resetAllJobs : Route Response := deleteJobs mode none

structure QueueRequest where
  fileIds : List String
  codec : Option String := none
  targetHeight : Option Nat := none
deriving DecidableEq

def downscaleCodec (sourceCodec explicit : Option String) (h264Default : String) :
    Option String :=
  match sourceCodec with
  | some "h264" => some h264Default
  | some "hevc" => some (explicit.getD "hevc")
  | some "av1" => if explicit = some "hevc" then none else some "av1"
  | _ => none

-- The queue validity matrix: the codec a file is queued for, if it may be queued at all.
def resolvedCodec (body : QueueRequest) (targetCodec : String) (m : MediaFile) : Option String :=
  if m.transcodeStatus.inFlight then none
  else
    match body.targetHeight with
    | none =>
      if m.videoCodec ≠ some "h264" ∨ m.transcodeStatus = .complete then none
      else some targetCodec
    | some height =>
      (downscaleCodec m.videoCodec body.codec targetCodec).filter fun _ =>
        m.height.any fun h => decide (h ≠ 0 ∧ height < h)

def queueCandidates (body : QueueRequest) (targetCodec : String) (rows : List MediaFile) :
    List (MediaFile × String) :=
  body.fileIds.filterMap fun fileId => do
    let m ← rows.find? fun m => m.id = fileId
    let resolved ← resolvedCodec body targetCodec m
    some (m, resolved)

def jobDraft (libs : List Library) (targetHeight : Option Nat) (targetVmaf : Rat)
    (m : MediaFile) (resolved : String) : Job :=
  let lib := libs.find? fun l => l.id = m.libraryId
  { id := 0
    sourcePath := m.filePath
    library := (lib.map Library.name).getD m.libraryId
    libraryId := some m.libraryId
    sourceCodec := m.videoCodec.getD ""
    sourceResolution := m.resolution
    sourceBitrate := m.bitrate
    sourceDuration := m.duration
    sourceSize := m.fileSize
    targetCodec := resolved
    targetHeight := targetHeight
    qualityValue := (lib.map Library.qualityPreset).getD 21
    targetVmaf := some targetVmaf
    status := .queued }

def queueEach (libs : List Library) (targetHeight : Option Nat) (targetVmaf : Rat)
    (blocked : List String) :
    List (MediaFile × String) → List String → Nat × Nat → Block (Nat × Nat)
  | [], _, counts => .ret counts
  | (m, resolved) :: rest, seen, (queued, skipped) =>
    if blocked.contains m.filePath || seen.contains m.filePath then
      queueEach libs targetHeight targetVmaf blocked rest seen (queued, skipped + 1)
    else do
      let jobId ← ask (.createJob (jobDraft libs targetHeight targetVmaf m resolved))
      ask (.updateMediaStatus m.id .queued none (some jobId))
      queueEach libs targetHeight targetVmaf blocked rest (m.filePath :: seen)
        (queued + 1, skipped)

def queueBlock (targetHeight : Option Nat) (targetVmaf : Rat) (blocked : List String)
    (candidates : List (MediaFile × String)) (skipped : Nat) : Block (Nat × Nat) := do
  let libs ← ask .listLibraries
  queueEach libs targetHeight targetVmaf blocked candidates [] (0, skipped)

def queueFiles (body : QueueRequest) : Route Response := do
  let defaultCodec ← run .defaultCodec
  let targetVmaf ← run .targetVmaf
  let rows ← run (.getByIds body.fileIds)
  let candidates := queueCandidates body (body.codec.getD defaultCodec) rows
  let paths := candidates.map fun c => c.1.filePath
  let excluded ← run (.filterExcluded paths)
  let active ← run (.activePaths paths)
  let (queued, skipped) ← batchTransaction mode
    (queueBlock body.targetHeight targetVmaf (excluded ++ active) candidates
      (body.fileIds.length - candidates.length))
  .ret (.queued queued skipped)

end JobRoutes

section Loops

variable (heartbeatTimeout : Nat)

def staleWorkerLoop : Route Response := do
  let _ ← run (.cleanupStaleWorkers (heartbeatTimeout * 3))
  .ret .noContent

def orphanRequeueLoop : Route Response := do
  let _ ← run (.requeueOrphanActiveJobs orphanRequeueGrace)
  let _ ← run (.requeueAbandonedActiveJobs abandonedGrace)
  .ret .noContent

end Loops

-- A worker's request carries the token row that its authentication found.
inductive Request where
  | register (token : WorkerToken) (body : RegisterRequest)
  | heartbeat (token : WorkerToken) (body : HeartbeatRequest)
  | claim (token : WorkerToken) (workerId : Uuid)
  | checkDerivative (token : WorkerToken) (jobId : Uuid) (derivativeKey : String)
      (claimToken : Option Uuid)
  | progress (token : WorkerToken) (jobId : Uuid) (body : ProgressRequest)
  | complete (token : WorkerToken) (jobId : Uuid) (body : CompleteRequest)
  | skipped (token : WorkerToken) (jobId : Uuid) (body : SkippedRequest)
  | failed (token : WorkerToken) (jobId : Uuid) (body : FailedRequest)
  | retry (jobId : Uuid)
  | cancel (jobId : Uuid)
  | cancelAll
  | clearCompleted
  | reset
  | queueFiles (body : QueueRequest)
  | staleWorkers (heartbeatTimeout : Nat)
  | orphanRequeue
deriving DecidableEq

namespace Request

def token? : Request → Option WorkerToken
  | register token _ | heartbeat token _ | claim token _ | checkDerivative token _ _ _
  | progress token _ _ | complete token _ _ | skipped token _ _ | failed token _ _ => some token
  | _ => none

def body (mode : Isolation) : Request → Route Response
  | register token body => Scheduler.register token body
  | heartbeat token body => Scheduler.heartbeat token body
  | claim token workerId => claimJob token workerId
  | checkDerivative token jobId derivativeKey claimToken =>
    Scheduler.checkDerivative token jobId derivativeKey claimToken
  | progress token jobId body => Scheduler.progress token jobId body
  | complete token jobId body => completeJob mode token jobId body
  | skipped token jobId body => skipJob mode token jobId body
  | failed token jobId body => failJob mode token jobId body
  | retry jobId => retryJob jobId
  | cancel jobId => cancelJob jobId
  | cancelAll => cancelAllPending
  | clearCompleted => Scheduler.clearCompleted mode
  | reset => resetAllJobs mode
  | queueFiles body => Scheduler.queueFiles mode body
  | staleWorkers heartbeatTimeout => staleWorkerLoop heartbeatTimeout
  | orphanRequeue => orphanRequeueLoop

end Request

def handler : Handler Nat Op Op.Answer Store Unit where
  exec _ op _ s := op.exec s

-- A thread is one request being served; the only disturbance is the passing of time.
def scheduler (mode : Isolation) :
    System Nat Request Nat Op Op.Answer Store Unit HttpError Response where
  handler := handler
  body _ r := r.body mode
  start _ r s :=
    if r.token?.all fun token => s.findActive token.tokenHash = some token then some s else none
  disturb elapsed s := { s with now := s.now + elapsed }
  kills _ _ := false

abbrev SchedulerCall := ThreadCall Nat Request Op Store Unit

abbrev SchedulerConfig := Config Nat Request Op Op.Answer Store HttpError Response

abbrev SchedulerRun (mode : Isolation) (s : Store) (es : List SchedulerCall)
    (d : SchedulerConfig) : Prop :=
  Run (scheduler mode) (.initial s) es d

end TranscodeForge.Scheduler
