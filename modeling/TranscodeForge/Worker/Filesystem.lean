import TranscodeForge.Worker.SourcePath

namespace TranscodeForge.Filesystem

open Interaction SourcePath

structure Artifacts where
  lock : String
  tmp : String
  bak : String
deriving DecidableEq, Repr

def stemSuffix (name : String) : String × String :=
  let tail := name.toList.reverse.takeWhile (· != '.')
  let stem := name.toList.take (name.toList.length - (tail.length + 1))
  if tail = [] ∨ stem = [] then (name, "")
  else (String.ofList stem, String.ofList ('.' :: tail.reverse))

def pipelineArtifacts (name : String) : Artifacts where
  lock := name ++ ".tf_lock"
  tmp := (stemSuffix name).1 ++ ".tf_tmp" ++ (stemSuffix name).2
  bak := (stemSuffix name).1 ++ ".tf_bak" ++ (stemSuffix name).2

-- Clock readings and timestamps are microseconds.
def lockTouchInterval : Nat := 300 * 1000000

def recoveryStaleLock : Nat := 3 * lockTouchInterval

abbrev sourceFile : File := .media .source

abbrev bakFile : File := .media .bak

abbrev tmpFile : File := .media .tmp

def safeDelete (site : Site) (f : File) : Worker Unit := do
  match ← act site (.exists f) with
  | .ok true => do
    let _ ← act site (.unlink f)
    pure ()
  | _ => pure ()

def token (jobId workerId : String) (timestamp : Nat) : LockText :=
  .object (some jobId) (some workerId) (some timestamp)

-- The loser of the exclusive create quotes the lock it found; bytes that are not UTF-8 raise
-- past the `except OSError`.
def lockContent : Worker Failure := do
  match ← act .acquireLock .readLock with
  | .ok .undecodable => pure (.value "the lock is not UTF-8")
  | .ok text => pure (.lockHeld (some text))
  | .error _ => pure (.lockHeld none)

def acquireLock (jobId workerId : String) : Worker Unit := do
  let timestamp ← act .acquireLock .now
  match ← act .acquireLock .openExclusive with
  | .ok () => orRaise (act .acquireLock (.writeLock (token jobId workerId timestamp)))
  | .error .fileExists => do
    let failure ← lockContent
    .raise failure
  | .error e => .raise (.os e)

def carriesToken (jobId workerId : String) : LockText → Bool
  | .object lockJob lockWorker _ => lockJob == some jobId && lockWorker == some workerId
  | _ => false

def lockMatches (jobId workerId : String) : Worker Bool := do
  match ← act .lockMatches .readLock with
  | .ok text => pure (carriesToken jobId workerId text)
  | .error _ => pure false

def touchLock (jobId workerId : String) : Worker Unit := do
  let timestamp ← act .touchLock .now
  match ← act .touchLock (.writeNew (token jobId workerId timestamp)) with
  | .error e => do
    safeDelete .touchLock .lockNew
    .raise (.os e)
  | .ok () => do
    match ← act .touchLock .replaceLock with
    | .error e => do
      safeDelete .touchLock .lockNew
      .raise (.os e)
    | .ok () => pure ()

def preExistingBackup (bak : String) : Message :=
  .text ("Pre-existing backup at " ++ bak ++ " — refusing to overwrite it. " ++
    "Verify the media file plays, then delete the backup manually.")

def OSError.text : OSError → String
  | .notFound => "No such file or directory"
  | .fileExists => "File exists"
  | .other => "Input/output error"

def renameAside : Worker Unit := do
  match ← act .atomicSwap (.rename .source .bak) with
  | .error e =>
    .raise (.pipeline "SWAP" (.text ("Failed to rename original to backup: " ++ OSError.text e)))
  | .ok () => do
    match ← act .atomicSwap (.rename .tmp .source) with
    | .ok () => pure ()
    | .error e => do
      let _ ← act .atomicSwap (.rename .bak .source)
      .raise (.pipeline "SWAP" (.text ("Failed to rename tmp to original: " ++ OSError.text e)))

def atomicSwap (bak : String) : Worker Unit := do
  if ← orRaise (act .atomicSwap (.exists bakFile)) then
    .raise (.pipeline "SWAP" (preExistingBackup bak))
  else do
    act .atomicSwap .setMutating
    renameAside

def rollbackSwap : Worker Bool := do
  if ← orRaise (act .rollbackSwap (.exists bakFile)) then do
    match ← act .rollbackSwap (.replace .bak .source) with
    | .ok () => pure true
    | .error _ => pure false
  else pure true

def preserveMetadata (srcStat : Stat) : Worker Unit := do
  if ← orRaise (act .preserveMetadata (.isSymlink .source)) then pure ()
  else do
    match ← act .preserveMetadata (.metadata .resolve) with
    | .error _ => pure ()
    | .ok () => do
      let _ ← act .preserveMetadata (.metadata (.chown srcStat.uid srcStat.gid))
      let _ ← act .preserveMetadata (.metadata (.chmod srcStat.mode))
      let _ ← act .preserveMetadata (.metadata (.utime srcStat.atimeNs srcStat.mtimeNs))
      pure ()

def readLock : Worker (Option (Option String × Nat)) := do
  match ← act .lockIsActive .readLock with
  | .ok (.object _ lockWorker timestamp) => pure (timestamp.map fun ts => (lockWorker, ts))
  | .ok .value => .raise (.attribute "object has no attribute 'get'")
  | _ => pure none

def lockIsActive (workerId : String) (staleAfter : Nat) : Worker Bool := do
  match ← readLock with
  | none => pure false
  | some (lockWorker, ts) =>
    if lockWorker = some workerId then pure false
    else do
      let now ← act .lockIsActive .now
      pure (decide (now < ts + staleAfter))

def lockedElsewhere (site : Site) (workerId : String) (staleAfter : Nat) : Worker Bool := do
  if ← orRaise (act site (.exists .lock)) then lockIsActive workerId staleAfter
  else pure false

def looksFinished (site : Site) : Worker Bool := do
  if ← orRaise (act site (.exists sourceFile)) then do
    let locked ← orRaise (act site (.exists .lock))
    pure (!locked)
  else pure false

inductive SourceRecovery where
  | clean
  | restored
  | cleaned
  | active
  | attention
  | restoreFailed
deriving DecidableEq, Repr

def clearLeftovers (site : Site) : Worker Unit := do
  safeDelete site .lock
  safeDelete site tmpFile

def restoreSource : Worker SourceRecovery := do
  match ← act .recoverSourcePath (.replace .bak .source) with
  | .error _ => do
    -- a concurrent recovery may have consumed the backup and restored the path
    if ← orRaise (act .recoverSourcePath (.exists bakFile)) then pure .restoreFailed
    else do
      if ← orRaise (act .recoverSourcePath (.exists sourceFile)) then pure .restored
      else pure .restoreFailed
  | .ok () => do
    clearLeftovers .recoverSourcePath
    pure .restored

def hasLeftovers : Worker Bool := do
  if ← orRaise (act .recoverSourcePath (.exists .lock)) then pure true
  else orRaise (act .recoverSourcePath (.exists tmpFile))

def recoverSourcePath (workerId : String) (staleAfter : Nat) : Worker SourceRecovery := do
  if ← lockedElsewhere .recoverSourcePath workerId staleAfter then pure .active
  else do
    if ← orRaise (act .recoverSourcePath (.exists bakFile)) then do
      if ← looksFinished .recoverSourcePath then pure .attention
      else do
        let _ ← orRaise (act .recoverSourcePath (.exists sourceFile))
        restoreSource
    else do
      if ← hasLeftovers then do
        clearLeftovers .recoverSourcePath
        pure .cleaned
      else pure .clean

structure RecoveryStats where
  restored : Nat := 0
  locksRemoved : Nat := 0
  tmpRemoved : Nat := 0
  skippedActive : Nat := 0
  needsAttention : Nat := 0
deriving DecidableEq, Repr

def deleteLeftover (site : Site) (f : File) : Worker Nat := do
  match ← act site (.exists f) with
  | .ok true => do
    match ← act site (.unlink f) with
    | .ok () => pure 1
    | .error _ => pure 0
  | _ => pure 0

def restoreBackup : Worker (Except OSError Unit) := do
  match ← act .recoverBackups (.exists sourceFile) with
  | .error e => pure (.error e)
  | .ok _ => act .recoverBackups (.replace .bak .source)

def recoverBackup (workerId : String) (staleAfter : Nat) (stats : RecoveryStats) :
    Worker RecoveryStats := do
  if ← lockedElsewhere .recoverBackups workerId staleAfter then
    pure { stats with skippedActive := stats.skippedActive + 1 }
  else do
    if ← looksFinished .recoverBackups then
      pure { stats with needsAttention := stats.needsAttention + 1 }
    else do
      match ← restoreBackup with
      | .error _ => pure stats
      | .ok () => do
        let locks ← deleteLeftover .recoverBackups .lock
        let tmps ← deleteLeftover .recoverBackups tmpFile
        pure { stats with
          restored := stats.restored + 1
          locksRemoved := stats.locksRemoved + locks
          tmpRemoved := stats.tmpRemoved + tmps }

def recoverBackupsUnder (workerId : String) (staleAfter : Nat) (stats : RecoveryStats) :
    Worker RecoveryStats := do
  if ← orRaise (act .recoverBackups (.glob bakFile)) then do
    if ← orRaise (act .recoverBackups (.isFile bakFile)) then recoverBackup workerId staleAfter stats
    else pure stats
  else pure stats

def removeStaleLock (workerId : String) (staleAfter : Nat) (stats : RecoveryStats) :
    Worker RecoveryStats := do
  if ← lockIsActive workerId staleAfter then pure stats
  else do
    match ← act .removeStaleLocks (.unlink .lock) with
    | .error _ => pure stats
    | .ok () => do
      let tmps ← deleteLeftover .removeStaleLocks tmpFile
      pure { stats with
        locksRemoved := stats.locksRemoved + 1
        tmpRemoved := stats.tmpRemoved + tmps }

def removeStaleLocksUnder (workerId : String) (staleAfter : Nat) (stats : RecoveryStats) :
    Worker RecoveryStats := do
  if ← orRaise (act .removeStaleLocks (.glob .lock)) then do
    if ← orRaise (act .removeStaleLocks (.isFile .lock)) then
      removeStaleLock workerId staleAfter stats
    else pure stats
  else pure stats

def recoverOrphanedBackups (workerId : String) (staleAfter : Nat) : Worker RecoveryStats := do
  if ← orRaise (act .recoverOrphanedBackups .isDir) then do
    let stats ← recoverBackupsUnder workerId staleAfter {}
    removeStaleLocksUnder workerId staleAfter stats
  else pure {}

end TranscodeForge.Filesystem
