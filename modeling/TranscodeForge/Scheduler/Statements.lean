import TranscodeForge.Interaction.Pool
import TranscodeForge.Scheduler.Models

namespace TranscodeForge.Scheduler

open Relational Interaction

def orphanRequeueGrace : Nat := seconds 600

def abandonedGrace : Nat := seconds 120

def rebindLiveness : Nat := seconds 90

def deleteChunk : Nat := 500

structure JobUpdate extends JobFields where
  status : Option JobStatus := none
  workerId : Option (Option Uuid) := none
  claimToken : Option (Option Uuid) := none
deriving DecidableEq

def JobUpdate.applyTo (u : JobUpdate) (now : Instant) (j : Job) : Job :=
  { u.apply j with
    status := u.status.getD j.status
    workerId := u.workerId.getD j.workerId
    claimToken := u.claimToken.getD j.claimToken
    updatedAt := now }

def attemptFence (claimToken : Option Uuid) (j : Job) : Bool :=
  match claimToken with
  | none => true
  | some token => j.claimToken == some token

namespace Job

def claimed (j : Job) (workerId token : Uuid) (now : Instant) : Job :=
  { j with
    status := .transcoding
    workerId := some workerId
    claimToken := some token
    startedAt := some now
    updatedAt := now }

-- What the two sweeps and a registration do to a job they take from its worker.
def released (j : Job) (now : Instant) : Job :=
  { j with
    status := .queued
    workerId := none
    claimToken := none
    startedAt := none
    progress := 0
    phase := none
    updatedAt := now }

def finalized (j : Job) (status : JobStatus) (fields : JobFields) (now : Instant) : Job :=
  { fields.apply j with status := status, updatedAt := now }

def progressed (j : Job) (fields : JobFields) (now : Instant) : Job :=
  { fields.apply j with updatedAt := now }

def cancelled (j : Job) (now : Instant) : Job := { j with status := .cancelled, updatedAt := now }

-- The columns create_job inserts; the others take their defaults.
def inserted (draft : Job) (id : Uuid) (now : Instant) : Job where
  id := id
  sourcePath := draft.sourcePath
  library := draft.library
  libraryId := draft.libraryId
  sourceCodec := draft.sourceCodec
  sourceResolution := draft.sourceResolution
  sourceBitrate := draft.sourceBitrate
  sourceDuration := draft.sourceDuration
  sourceSize := draft.sourceSize
  targetCodec := draft.targetCodec
  targetHeight := draft.targetHeight
  qualityValue := draft.qualityValue
  targetVmaf := draft.targetVmaf
  status := draft.status
  retryCount := draft.retryCount
  createdAt := now
  updatedAt := now

def claimable (codecs : List String) (supportsDownscale : Bool) (j : Job) : Bool :=
  j.status.isWaiting && codecs.contains j.targetCodec &&
    (supportsDownscale || j.targetHeight.isNone)

-- No owner in the statement stands for the empty string, which no row has.
def heldBy (j : Job) (id : Uuid) (workerId claimToken : Option Uuid) : Bool :=
  j.id == id && workerId.any (fun w => j.workerId == some w) && attemptFence claimToken j

end Job

-- ORDER BY created_at ASC LIMIT 1.
def oldest : List Job → Option Job
  | [] => none
  | j :: js =>
    match oldest js with
    | some j' => if j'.createdAt < j.createdAt then some j' else some j
    | none => some j

def scaledWidth (width height : Option Nat) (targetHeight : Nat) : Option Nat :=
  match width, height with
  | some w, some h =>
    if w = 0 ∨ h = 0 then none else some ((w * targetHeight + h) / (2 * h) * 2)
  | _, _ => none

def formatResolution (width height : Nat) : String := s!"{width}x{height}"

namespace MediaFile

def withStatus (m : MediaFile) (status : TranscodeStatus) (skipReason : Option String)
    (now : Instant) : MediaFile :=
  { m with transcodeStatus := status, skipReason := skipReason, updatedAt := now }

def unlinked (m : MediaFile) (now : Instant) : MediaFile :=
  { m with
    jobId := none
    transcodeStatus := if m.transcodeStatus.inFlight then .needsTranscode else m.transcodeStatus
    skipReason := if m.transcodeStatus.inFlight then none else m.skipReason
    updatedAt := now }

def described (m : MediaFile) (videoCodec : String) (fileSize : Nat) (now : Instant) :
    MediaFile :=
  { m with videoCodec := some videoCodec, fileSize := some fileSize, updatedAt := now }

def downscaled (m : MediaFile) (width : Option Nat) (height : Nat) : MediaFile :=
  match width with
  | none => { m with height := some height }
  | some w =>
    { m with
      width := some w
      height := some height
      resolution := some (formatResolution w height) }

@[simp] theorem downscaled_id (m : MediaFile) (width : Option Nat) (height : Nat) :
    (m.downscaled width height).id = m.id := by
  cases width <;> rfl

end MediaFile

namespace Store

variable (s : Store)

def updateJobs (p : Job → Bool) (set : Job → Job)
    (hset : ∀ j, (set j).id = j.id := by intro; rfl) : Store :=
  { s with jobs := s.jobs.update p set hset }

def updateMedia (p : MediaFile → Bool) (set : MediaFile → MediaFile)
    (hset : ∀ m, (set m).id = m.id := by intro; rfl) : Store :=
  { s with media := s.media.update p set hset }

def updateWorkers (p : Worker → Bool) (set : Worker → Worker)
    (hset : ∀ w, (set w).id = w.id := by intro; rfl) : Store :=
  { s with workers := s.workers.update p set hset }

def findActive (tokenHash : String) : Option WorkerToken :=
  (s.tokens.get? tokenHash).filter fun t =>
    t.revokedAt.isNone && t.expiresAt.all fun e => decide (s.now < e)

def bound (tokenHash : String) (expected : Option Uuid) (t : WorkerToken) : Bool :=
  t.tokenHash == tokenHash && t.workerId == expected

def bindTokens (p : WorkerToken → Bool) (workerId : Uuid) : Store :=
  { s with tokens := s.tokens.update p (fun t => { t with workerId := some workerId }) fun _ => rfl }

-- `expected = none` is the statement's `worker_id IS NULL`.
def linkWorker (tokenHash : String) (workerId : Uuid) (expected : Option Uuid) : Store × Bool :=
  (s.bindTokens (bound tokenHash expected) workerId,
    s.tokens.rowCount (bound tokenHash expected) != 0)

def getWorker (id : Uuid) : Option Worker := s.workers.get? id

def stampedWorker (w : Worker) : Worker :=
  { w with lastHeartbeat := some s.now, registeredAt := s.now, updatedAt := s.now }

-- The columns of ON CONFLICT(id) DO UPDATE: current_job_changed_at and registered_at stay.
def refreshedWorker (w r : Worker) : Worker :=
  { s.stampedWorker w with
    id := r.id
    currentJobChangedAt := r.currentJobChangedAt
    registeredAt := r.registeredAt }

def upsertWorker (w : Worker) : Store :=
  { s with workers := s.workers.upsert (s.stampedWorker w) (s.refreshedWorker w) fun _ => rfl }

def heartbeaten (status : WorkerStatus) (currentJobId : Option Uuid) (w : Worker) : Worker :=
  { w with
    lastHeartbeat := some s.now
    status := status
    currentJobChangedAt :=
      if w.currentJobId = currentJobId then w.currentJobChangedAt else some s.now
    currentJobId := currentJobId
    updatedAt := s.now }

def updateWorkerHeartbeat (id : Uuid) (status : WorkerStatus) (currentJobId : Option Uuid) :
    Store :=
  s.updateWorkers (fun w => w.id == id) (s.heartbeaten status currentJobId)

def stale (timeout : Nat) (w : Worker) : Bool :=
  w.status.isAlive && w.lastHeartbeat.any fun t => decide (t + timeout < s.now)

def cleanupStaleWorkers (timeout : Nat) : Store × Nat :=
  (s.updateWorkers (s.stale timeout) fun w => { w with status := .dead, updatedAt := s.now },
    s.workers.rowCount (s.stale timeout))

def getJob (id : Uuid) : Option Job := s.jobs.get? id

-- The new job's id is one that no row has had.
def createJob (draft : Job) : Store × Uuid :=
  ({ s with
      jobs := s.jobs.insert (draft.inserted s.nextUuid s.now)
      nextUuid := s.nextUuid + 1 }, s.nextUuid)

def updateJob (id : Uuid) (u : JobUpdate) : Store :=
  s.updateJobs (fun j => j.id == id) (u.applyTo s.now)

def cancellable (id : Uuid) (j : Job) : Bool := j.id == id && j.status.isWaiting

def cancelIfWaiting (id : Uuid) : Store × Bool :=
  (s.updateJobs (cancellable id) fun j => j.cancelled s.now,
    s.jobs.rowCount (cancellable id) != 0)

def finalizable (id : Uuid) (workerId claimToken : Option Uuid) (j : Job) : Bool :=
  j.heldBy id workerId claimToken && !j.status.isTerminal

def finalizeJob (id : Uuid) (workerId : Option Uuid) (status : JobStatus)
    (claimToken : Option Uuid) (fields : JobFields) : Store × Bool :=
  (s.updateJobs (finalizable id workerId claimToken) fun j => j.finalized status fields s.now,
    s.jobs.rowCount (finalizable id workerId claimToken) != 0)

def progressable (id : Uuid) (workerId claimToken : Option Uuid) (j : Job) : Bool :=
  j.heldBy id workerId claimToken && j.status.isActive

def reportProgress (id : Uuid) (workerId claimToken : Option Uuid) (fields : JobFields) :
    Store × Bool :=
  (s.updateJobs (progressable id workerId claimToken) fun j => j.progressed fields s.now,
    s.jobs.rowCount (progressable id workerId claimToken) != 0)

def ownedActive (workerId : Uuid) (j : Job) : Bool :=
  j.workerId == some workerId && j.status.isActive

def releaseJobs (workerId : Uuid) : Store × Nat :=
  (s.updateJobs (ownedActive workerId) fun j => j.released s.now,
    s.jobs.rowCount (ownedActive workerId))

def owner (j : Job) : Option Worker := j.workerId.bind s.workers.get?

def orphaned (minIdle : Nat) (j : Job) : Bool :=
  j.status.isActive && ((s.owner j).all fun w => !w.status.isAlive) &&
    decide (j.updatedAt + minIdle < s.now)

def requeueOrphanActiveJobs (minIdle : Nat) : Store × List Uuid :=
  (s.updateJobs (s.orphaned minIdle) fun j => j.released s.now,
    (s.jobs.select (s.orphaned minIdle)).map Job.id)

def abandoned (grace : Nat) (j : Job) : Bool :=
  j.status.isActive &&
    ((s.owner j).any fun w =>
      w.status.isAlive && w.currentJobId != some j.id &&
        w.currentJobChangedAt.any fun t => decide (t + grace < s.now)) &&
    decide (j.updatedAt + grace < s.now)

def requeueAbandonedActiveJobs (grace : Nat) : Store × List Uuid :=
  (s.updateJobs (s.abandoned grace) fun j => j.released s.now,
    (s.jobs.select (s.abandoned grace)).map Job.id)

def nextClaimable (codecs : List String) (supportsDownscale : Bool) : Option Job :=
  oldest (s.jobs.select (Job.claimable codecs supportsDownscale))

def drawUuid : Store := { s with nextUuid := s.nextUuid + 1 }

def claimCodecs (supportedCodecs : List String) : List String :=
  if supportedCodecs.isEmpty then ["hevc"] else supportedCodecs

def claimNextJob (workerId : Uuid) (supportedCodecs : List String) (supportsDownscale : Bool) :
    Store × Option Job :=
  match s.nextClaimable (claimCodecs supportedCodecs) supportsDownscale with
  | none => (s.drawUuid, none)
  | some next =>
    (s.drawUuid.updateJobs (fun j => j.id == next.id)
        fun j => j.claimed workerId s.nextUuid s.now,
      some (next.claimed workerId s.nextUuid s.now))

def blocksPath (path : String) (j : Job) : Bool :=
  j.sourcePath == path && j.status != .failed && j.status != .cancelled

def activePaths (paths : List String) : List String :=
  paths.filter fun path => !(s.jobs.select (blocksPath path)).isEmpty

def cancelAllJobs : Store × Nat :=
  (s.updateJobs (fun j => j.status.isWaiting) fun j => j.cancelled s.now,
    s.jobs.rowCount fun j => j.status.isWaiting)

def selectJobIds (statuses : Option (List JobStatus)) : List Uuid :=
  (s.jobs.select fun j => statuses.all fun l => l.contains j.status).map Job.id

def deleteJobRows (ids : List Uuid) : Store × Nat :=
  ({ s with jobs := s.jobs.delete fun j => ids.contains j.id },
    s.jobs.rowCount fun j => ids.contains j.id)

def linkedTo (ids : List Uuid) (m : MediaFile) : Bool := m.jobId.any ids.contains

def releaseMedia (ids : List Uuid) : Store × Nat :=
  (s.updateMedia (linkedTo ids) fun m => m.unlinked s.now, s.media.rowCount (linkedTo ids))

def getByIds (fileIds : List String) : List MediaFile :=
  s.media.select fun m => fileIds.contains m.id

def updateMediaStatus (fileId : String) (status : TranscodeStatus) (skipReason : Option String)
    (jobId : Option Uuid) : Store :=
  s.updateMedia (fun m => m.id == fileId)
    fun m => { m.withStatus status skipReason s.now with jobId := jobId }

def updateStatusByJob (jobId : Uuid) (status : TranscodeStatus) (skipReason : Option String) :
    Store :=
  s.updateMedia (fun m => m.jobId == some jobId) fun m => m.withStatus status skipReason s.now

-- A job never replaces an S3 master, so its row is not described again.
def swapped (jobId : Uuid) (m : MediaFile) : Bool :=
  m.jobId == some jobId && (s.libraries.get? m.libraryId).any fun l => l.backend != "s3"

def updateOutput (jobId : Uuid) (videoCodec : String) (fileSize : Nat) : Store :=
  s.updateMedia (s.swapped jobId) fun m => m.described videoCodec fileSize s.now

def selectSwapped (jobId : Uuid) : List MediaFile := s.media.select (s.swapped jobId)

def describeOutput (fileId : String) (videoCodec : String) (fileSize : Nat)
    (width : Option Nat) (height : Nat) : Store :=
  s.updateMedia (fun m => m.id == fileId)
    (fun m => (m.described videoCodec fileSize s.now).downscaled width height)
    fun m => by simp [MediaFile.described]

def waitingJob (m : MediaFile) : Bool :=
  (m.jobId.bind s.jobs.get?).any fun j => j.status.isWaiting

def cancelAllMedia (now : Instant) : Store :=
  s.updateMedia s.waitingJob fun m => m.withStatus .needsTranscode none now

def isExcluded (path : String) : Bool := s.excludedPaths.contains path

def filterExcluded (paths : List String) : List String := paths.filter s.isExcluded

def lookupByKey (derivativeKey : String) : Option Derivative := s.derivatives.get? derivativeKey

def recordSkip (f : SkippedFile) : Store :=
  { s with
    skippedFiles := s.skippedFiles.upsert { f with createdAt := s.now, updatedAt := s.now }
      (fun r =>
        { r with
          libraryId := f.libraryId
          codec := f.codec
          resolution := f.resolution
          fileSize := f.fileSize
          skipReason := f.skipReason
          updatedAt := s.now })
      fun _ => rfl }

end Store

-- One statement a request sends to the database (or, the last three, asks of its process).
inductive Statement where
  | linkWorker (tokenHash : String) (workerId : Uuid) (expected : Option Uuid)
  | getWorker (id : Uuid)
  | upsertWorker (w : Worker)
  | updateWorkerHeartbeat (id : Uuid) (status : WorkerStatus) (currentJobId : Option Uuid)
  | cleanupStaleWorkers (timeout : Nat)
  | getJob (id : Uuid)
  | createJob (draft : Job)
  | updateJob (id : Uuid) (u : JobUpdate)
  | cancelIfWaiting (id : Uuid)
  | finalizeJob (id : Uuid) (workerId : Option Uuid) (status : JobStatus)
      (claimToken : Option Uuid) (fields : JobFields)
  | reportProgress (id : Uuid) (workerId claimToken : Option Uuid) (fields : JobFields)
  | releaseJobs (workerId : Uuid)
  | requeueOrphanActiveJobs (minIdle : Nat)
  | requeueAbandonedActiveJobs (grace : Nat)
  | claimNextJob (workerId : Uuid) (supportedCodecs : List String) (supportsDownscale : Bool)
  | activePaths (paths : List String)
  | cancelAllJobs
  | selectJobIds (statuses : Option (List JobStatus))
  | deleteJobRows (ids : List Uuid)
  | releaseMedia (ids : List Uuid)
  | getByIds (fileIds : List String)
  | updateMediaStatus (fileId : String) (status : TranscodeStatus) (skipReason : Option String)
      (jobId : Option Uuid)
  | updateStatusByJob (jobId : Uuid) (status : TranscodeStatus) (skipReason : Option String)
  | updateOutput (jobId : Uuid) (videoCodec : String) (fileSize : Nat)
  | selectSwapped (jobId : Uuid)
  | describeOutput (fileId : String) (videoCodec : String) (fileSize : Nat)
      (width : Option Nat) (height : Nat)
  | cancelAllMedia (now : Instant)
  | isExcluded (path : String)
  | filterExcluded (paths : List String)
  | lookupByKey (derivativeKey : String)
  | recordSkip (f : SkippedFile)
  | listLibraries
  | isQueuePaused
  | defaultCodec
  | targetVmaf
  | utcNow
  | uuid4

namespace Statement

abbrev Answer : Statement → Type
  | linkWorker _ _ _ | cancelIfWaiting _ | finalizeJob _ _ _ _ _ | reportProgress _ _ _ _
  | isExcluded _ | isQueuePaused => Bool
  | getWorker _ => Option Worker
  | cleanupStaleWorkers _ | releaseJobs _ | cancelAllJobs | deleteJobRows _ | releaseMedia _ => Nat
  | getJob _ | claimNextJob _ _ _ => Option Job
  | createJob _ | uuid4 => Uuid
  | requeueOrphanActiveJobs _ | requeueAbandonedActiveJobs _ | selectJobIds _ => List Uuid
  | activePaths _ | filterExcluded _ => List String
  | getByIds _ | selectSwapped _ => List MediaFile
  | lookupByKey _ => Option Derivative
  | listLibraries => List Library
  | defaultCodec => String
  | targetVmaf => Rat
  | utcNow => Instant
  | upsertWorker _ | updateWorkerHeartbeat _ _ _ | updateJob _ _ | updateMediaStatus _ _ _ _
  | updateStatusByJob _ _ _ | updateOutput _ _ _ | describeOutput _ _ _ _ _ | cancelAllMedia _
  | recordSkip _ => Unit

def exec (s : Store) : (q : Statement) → Store × q.Answer
  | linkWorker tokenHash workerId expected => s.linkWorker tokenHash workerId expected
  | getWorker id => (s, s.getWorker id)
  | upsertWorker w => (s.upsertWorker w, ())
  | updateWorkerHeartbeat id status currentJobId =>
    (s.updateWorkerHeartbeat id status currentJobId, ())
  | cleanupStaleWorkers timeout => s.cleanupStaleWorkers timeout
  | getJob id => (s, s.getJob id)
  | createJob draft => s.createJob draft
  | updateJob id u => (s.updateJob id u, ())
  | cancelIfWaiting id => s.cancelIfWaiting id
  | finalizeJob id workerId status claimToken fields =>
    s.finalizeJob id workerId status claimToken fields
  | reportProgress id workerId claimToken fields =>
    s.reportProgress id workerId claimToken fields
  | releaseJobs workerId => s.releaseJobs workerId
  | requeueOrphanActiveJobs minIdle => s.requeueOrphanActiveJobs minIdle
  | requeueAbandonedActiveJobs grace => s.requeueAbandonedActiveJobs grace
  | claimNextJob workerId supportedCodecs supportsDownscale =>
    s.claimNextJob workerId supportedCodecs supportsDownscale
  | activePaths paths => (s, s.activePaths paths)
  | cancelAllJobs => s.cancelAllJobs
  | selectJobIds statuses => (s, s.selectJobIds statuses)
  | deleteJobRows ids => s.deleteJobRows ids
  | releaseMedia ids => s.releaseMedia ids
  | getByIds fileIds => (s, s.getByIds fileIds)
  | updateMediaStatus fileId status skipReason jobId =>
    (s.updateMediaStatus fileId status skipReason jobId, ())
  | updateStatusByJob jobId status skipReason => (s.updateStatusByJob jobId status skipReason, ())
  | updateOutput jobId videoCodec fileSize => (s.updateOutput jobId videoCodec fileSize, ())
  | selectSwapped jobId => (s, s.selectSwapped jobId)
  | describeOutput fileId videoCodec fileSize width height =>
    (s.describeOutput fileId videoCodec fileSize width height, ())
  | cancelAllMedia now => (s.cancelAllMedia now, ())
  | isExcluded path => (s, s.isExcluded path)
  | filterExcluded paths => (s, s.filterExcluded paths)
  | lookupByKey derivativeKey => (s, s.lookupByKey derivativeKey)
  | recordSkip f => (s.recordSkip f, ())
  | listLibraries => (s, s.libraries.rows)
  | isQueuePaused => (s, s.queuePaused)
  | defaultCodec => (s, s.defaultCodec)
  | targetVmaf => (s, s.targetVmaf)
  | utcNow => (s, s.now)
  | uuid4 => (s.drawUuid, s.nextUuid)

def next (q : Statement) (s : Store) : Store := (q.exec s).1

end Statement

end TranscodeForge.Scheduler
