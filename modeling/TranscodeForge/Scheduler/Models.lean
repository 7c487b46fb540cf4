import TranscodeForge.Relational.Table

namespace TranscodeForge.Scheduler

open Relational

-- uuid4 values are drawn from one supply, so that no two of them agree.
abbrev Uuid := Nat

-- Microseconds, the resolution of the stored timestamps.
abbrev Instant := Nat

def seconds (n : Nat) : Nat := n * 1000000

inductive JobStatus where
  | pending
  | queued
  | assigned
  | transcoding
  | complete
  | failed
  | skipped
  | cancelled
deriving DecidableEq, Repr

namespace JobStatus

def value : JobStatus → String
  | pending => "pending"
  | queued => "queued"
  | assigned => "assigned"
  | transcoding => "transcoding"
  | complete => "complete"
  | failed => "failed"
  | skipped => "skipped"
  | cancelled => "cancelled"

def waitingJobStatuses : List JobStatus := [pending, queued]

def activeJobStatuses : List JobStatus := [assigned, transcoding]

def terminalJobStatuses : List JobStatus := [complete, skipped, failed, cancelled]

def isWaiting (s : JobStatus) : Bool := waitingJobStatuses.contains s

def isActive (s : JobStatus) : Bool := activeJobStatuses.contains s

def isTerminal (s : JobStatus) : Bool := terminalJobStatuses.contains s

-- The three sets partition the statuses.
theorem waiting_active_terminal (s : JobStatus) :
    s.isWaiting = true ∧ s.isActive = false ∧ s.isTerminal = false ∨
      s.isWaiting = false ∧ s.isActive = true ∧ s.isTerminal = false ∨
      s.isWaiting = false ∧ s.isActive = false ∧ s.isTerminal = true := by
  cases s <;> decide

def isLive (s : JobStatus) : Bool := s.isWaiting || s.isActive

theorem isLive_of_waiting {s : JobStatus} (h : s.isWaiting = true) : s.isLive = true := by
  rw [isLive, h, Bool.true_or]

theorem isLive_of_active {s : JobStatus} (h : s.isActive = true) : s.isLive = true := by
  rw [isLive, h, Bool.or_true]

@[simp] theorem isLive_eq (s : JobStatus) : s.isLive = !s.isTerminal := by
  cases s <;> rfl

end JobStatus

structure Job where
  id : Uuid
  sourcePath : String
  library : String
  libraryId : Option String := none
  sourceCodec : String
  sourceResolution : Option String := none
  sourceBitrate : Option Nat := none
  sourceDuration : Option Rat := none
  sourceSize : Option Nat := none
  targetCodec : String := "hevc"
  targetHeight : Option Nat := none
  qualityValue : Nat
  targetVmaf : Option Rat := none
  resolvedCrf : Option Nat := none
  achievedVmaf : Option Rat := none
  achievedVmafPerc5 : Option Rat := none
  predictedVmafMean : Option Rat := none
  predictedVmafPerc5 : Option Rat := none
  backendUsed : Option String := none
  status : JobStatus := .pending
  workerId : Option Uuid := none
  claimToken : Option Uuid := none
  progress : Rat := 0
  phase : Option String := none
  phasePct : Option Rat := none
  phaseDetail : Option String := none
  outputSize : Option Nat := none
  spaceSaved : Option Nat := none
  errorMessage : Option String := none
  retryCount : Nat := 0
  createdAt : Instant := 0
  startedAt : Option Instant := none
  completedAt : Option Instant := none
  updatedAt : Instant := 0
deriving DecidableEq

-- The columns a statement sets besides the status, the owner and the claim token; a column
-- that is `none` is not in its SET list.
structure JobFields where
  sourceSize : Option Nat := none
  resolvedCrf : Option (Option Nat) := none
  achievedVmaf : Option (Option Rat) := none
  achievedVmafPerc5 : Option (Option Rat) := none
  predictedVmafMean : Option (Option Rat) := none
  predictedVmafPerc5 : Option (Option Rat) := none
  backendUsed : Option (Option String) := none
  progress : Option Rat := none
  phase : Option (Option String) := none
  phasePct : Option (Option Rat) := none
  phaseDetail : Option (Option String) := none
  outputSize : Option (Option Nat) := none
  spaceSaved : Option Nat := none
  errorMessage : Option (Option String) := none
  retryCount : Option Nat := none
  completedAt : Option Instant := none
deriving DecidableEq

def JobFields.apply (f : JobFields) (j : Job) : Job :=
  { j with
    sourceSize := f.sourceSize <|> j.sourceSize
    resolvedCrf := f.resolvedCrf.getD j.resolvedCrf
    achievedVmaf := f.achievedVmaf.getD j.achievedVmaf
    achievedVmafPerc5 := f.achievedVmafPerc5.getD j.achievedVmafPerc5
    predictedVmafMean := f.predictedVmafMean.getD j.predictedVmafMean
    predictedVmafPerc5 := f.predictedVmafPerc5.getD j.predictedVmafPerc5
    backendUsed := f.backendUsed.getD j.backendUsed
    progress := f.progress.getD j.progress
    phase := f.phase.getD j.phase
    phasePct := f.phasePct.getD j.phasePct
    phaseDetail := f.phaseDetail.getD j.phaseDetail
    outputSize := f.outputSize.getD j.outputSize
    spaceSaved := f.spaceSaved <|> j.spaceSaved
    errorMessage := f.errorMessage.getD j.errorMessage
    retryCount := f.retryCount.getD j.retryCount
    completedAt := f.completedAt <|> j.completedAt }

namespace JobFields

variable (f : JobFields) (j : Job)

@[simp] theorem apply_id : (f.apply j).id = j.id := rfl

@[simp] theorem apply_sourcePath : (f.apply j).sourcePath = j.sourcePath := rfl

@[simp] theorem apply_status : (f.apply j).status = j.status := rfl

@[simp] theorem apply_workerId : (f.apply j).workerId = j.workerId := rfl

@[simp] theorem apply_claimToken : (f.apply j).claimToken = j.claimToken := rfl

@[simp] theorem apply_updatedAt : (f.apply j).updatedAt = j.updatedAt := rfl

end JobFields

inductive TranscodeStatus where
  | pending
  | needsTranscode
  | queued
  | transcoding
  | complete
  | skipped
deriving DecidableEq, Repr

def inFlightStatuses : List TranscodeStatus := [.queued, .transcoding]

def TranscodeStatus.inFlight (s : TranscodeStatus) : Bool := inFlightStatuses.contains s

structure MediaFile where
  id : String
  libraryId : String
  filePath : String
  videoCodec : Option String := none
  resolution : Option String := none
  width : Option Nat := none
  height : Option Nat := none
  bitrate : Option Nat := none
  duration : Option Rat := none
  fileSize : Option Nat := none
  transcodeStatus : TranscodeStatus := .pending
  skipReason : Option String := none
  jobId : Option Uuid := none
  updatedAt : Instant := 0
deriving DecidableEq

inductive WorkerStatus where
  | online
  | busy
  | offline
  | dead
deriving DecidableEq, Repr

def aliveWorkerStatuses : List WorkerStatus := [.online, .busy]

def WorkerStatus.isAlive (s : WorkerStatus) : Bool := aliveWorkerStatuses.contains s

structure Worker where
  id : Uuid
  name : String
  host : String
  supportedCodecs : List String := ["hevc"]
  supportsDownscale : Bool := false
  sendsClaimToken : Bool := false
  status : WorkerStatus := .offline
  currentJobId : Option Uuid := none
  currentJobChangedAt : Option Instant := none
  lastHeartbeat : Option Instant := none
  registeredAt : Instant := 0
  updatedAt : Instant := 0
deriving DecidableEq

structure WorkerToken where
  tokenHash : String
  workerId : Option Uuid := none
  revokedAt : Option Instant := none
  expiresAt : Option Instant := none
deriving DecidableEq

structure SkippedFile where
  filePath : String
  library : String
  libraryId : Option String
  codec : String
  resolution : Option String
  fileSize : Option Nat
  skipReason : String
  createdAt : Instant
  updatedAt : Instant
deriving DecidableEq

structure Library where
  id : String
  name : String
  backend : String := "filesystem"
  qualityPreset : Nat := 21
deriving DecidableEq

structure Derivative where
  derivativeKey : String
  outputSize : Option Nat := none
deriving DecidableEq

structure Store where
  jobs : Table Uuid Job Job.id := .empty
  media : Table String MediaFile MediaFile.id := .empty
  workers : Table Uuid Worker Worker.id := .empty
  tokens : Table String WorkerToken WorkerToken.tokenHash := .empty
  skippedFiles : Table String SkippedFile SkippedFile.filePath := .empty
  libraries : Table String Library Library.id := .empty
  derivatives : Table String Derivative Derivative.derivativeKey := .empty
  excludedPaths : List String := []
  queuePaused : Bool := false
  defaultCodec : String := "hevc"
  targetVmaf : Rat := 95
  now : Instant := 0
  nextUuid : Uuid := 0

end TranscodeForge.Scheduler
