import TranscodeForge.Worker.Filesystem

namespace TranscodeForge.Ownership

open Interaction SourcePath Filesystem

structure SourceOwnership where
  jobId : String
  workerId : String
  bakPath : String
deriving DecidableEq, Repr

def checkpoint : Worker Unit := do
  if ← act .transaction .checkCancelled then .raise .cancelled
  else pure ()

-- Run to the end; a cancellation delivered meanwhile is raised afterwards, unless the
-- coroutine raised.
def settled {α : Type} (coro : Worker α) : Worker α := do
  let result ← coro
  checkpoint
  pure result

variable (own : SourceOwnership)

def releaseLock : Worker Unit := do
  if ← lockMatches own.jobId own.workerId then safeDelete .releaseLock .lock
  else pure ()

-- The exclusive create may have completed just before the cancellation landed.
def abandonAcquire : Failure → Worker Unit
  | .cancelled => do
    settled (releaseLock own)
    .raise .cancelled
  | e => .raise e

def enter : Worker Unit := do
  act .transaction .openTransaction
  (settled (acquireLock own.jobId own.workerId)).rescue (abandonAcquire own)
  act .transaction .startHeartbeat

def ignoreOSError : Failure → Worker Unit
  | .os _ => pure ()
  | e => .raise e

def refreshLock : Worker Unit := do
  if ← lockMatches own.jobId own.workerId then
    (touchLock own.jobId own.workerId).rescue ignoreOSError
  else pure ()

-- One round of the heartbeat loop; the loop starts the next one after its sleep.
def beat : Worker Unit := do
  refreshLock own
  act .transaction .endTouch

def swap : Worker Unit := settled (atomicSwap own.bakPath)

def finish (srcStat : Stat) : Worker Unit := do
  preserveMetadata srcStat
  safeDelete .finish bakFile
  act .finish .setConfirmed

def confirm (srcStat : Stat) : Worker Unit := settled (finish srcStat)

def releaseArtifacts : Worker Unit := do
  if ← lockMatches own.jobId own.workerId then do
    safeDelete .releaseArtifacts tmpFile
    safeDelete .releaseArtifacts .lock
  else pure ()

def settle : Worker Unit := do
  act .settle .stopHeartbeat
  let state ← act .settle .readOwn
  if state.mutating && !state.confirmed then do
    if ← rollbackSwap then releaseArtifacts own
    else pure ()
  else releaseArtifacts own

def transaction {α : Type} (body : Worker α) : Worker α := do
  enter own
  let outcome ← body.attempt
  settled (settle own)
  .ofExcept outcome

end TranscodeForge.Ownership
