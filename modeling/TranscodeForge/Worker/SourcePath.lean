import TranscodeForge.Interaction.Pool
import TranscodeForge.Worker.Streams
import Mathlib.Data.Rat.Defs

namespace TranscodeForge.SourcePath

open Interaction Streams

abbrev Bytes := List UInt8

inductive Media where
  | source
  | bak
  | tmp
deriving DecidableEq, Repr

inductive File where
  | media (m : Media)
  | lock
  | lockNew
deriving DecidableEq, Repr

inductive OSError where
  | notFound
  | fileExists
  | other
deriving DecidableEq, Repr

-- `object` keeps what the readers look up; a key that is missing or of another type is `none`.
inductive LockText where
  | undecodable
  | invalid
  | value
  | object (jobId workerId : Option String) (timestamp : Option Nat)
deriving DecidableEq, Repr

def LockText.workerId : LockText → Option String
  | .object _ workerId _ => workerId
  | _ => none

def LockText.timestamp : LockText → Option Nat
  | .object _ _ timestamp => timestamp
  | _ => none

structure LockFile where
  inode : Nat
  text : LockText
deriving DecidableEq, Repr

inductive Role where
  | main
  | heartbeat
deriving DecidableEq, Repr

structure Actor where
  worker : String
  role : Role
deriving DecidableEq, Repr

structure Own where
  mutating : Bool := false
  confirmed : Bool := false
  beating : Bool := false
  touching : Bool := false
  lockHandle : Option Nat := none
deriving DecidableEq, Repr

structure Stat where
  size : Nat
  uid : Nat
  gid : Nat
  mode : Nat
  atimeNs : Nat
  mtimeNs : Nat
deriving DecidableEq, Repr

inductive MetadataCall where
  | resolve
  | chown (uid gid : Nat)
  | chmod (mode : Nat)
  | utime (atimeNs mtimeNs : Nat)
deriving DecidableEq, Repr

structure ProbeResult where
  videoCodec : String
  height : Nat
  duration : Rat
  pixFmt : String
deriving DecidableEq

inductive ProbeFailure where
  | probeError (message : String)
  | other (message : String)
deriving DecidableEq, Repr

inductive VmafFailure where
  | unavailable
  | vmafError (message : String)
  | other (message : String)
deriving DecidableEq, Repr

structure VmafScore where
  mean : Rat
  perc5 : Rat
deriving DecidableEq

structure QualitySearchResult where
  quality : Int
  predictedMean : Rat
  predictedPerc5 : Rat
deriving DecidableEq

structure EncodeResult where
  success : Bool
  errorMessage : Option String
deriving DecidableEq, Repr

inductive DecodeOutcome where
  | timedOut
  | exited (returncode : Int) (stderr : String)
deriving DecidableEq, Repr

structure EncodeRequest where
  codec : String
  backend : String
  quality : Int
  content : Option String
  targetHeight : Option Nat
  plan : StreamPlan
deriving DecidableEq, Repr

structure SearchRequest where
  codec : String
  backend : String
  targetVmaf : Rat
  perc5Floor : Rat
  height : Option Nat
  targetHeight : Option Nat
  primaryIndex : Option Nat
deriving DecidableEq

-- `text` is a message as the source spells it; the others keep the numbers it formats.
inductive Message where
  | text (s : String)
  | durationMismatch (expected actual : Rat)
  | decodeTimeout (offset : Rat)
  | decodeFailed (offset : Rat) (returncode : Int) (stderr : String)
  | postSwap (step : String) (inner : Message)
deriving DecidableEq

inductive Failure where
  | cancelled
  | pipeline (step : String) (message : Message)
  | lockHeld (content : Option LockText)
  | sizeRegression (sourceSize outputSize : Nat) (resolvedCrf : Int) (backend : String)
      (predicted : Option QualitySearchResult)
  | vmafGate (score : VmafScore) (meanFloor perc5Floor : Rat) (resolvedCrf : Int)
      (backend : String) (predicted : Option QualitySearchResult)
  | streamLoss (step detail : String) (missing : List String) (resolvedCrf : Int)
      (backend : String)
  | os (e : OSError)
  | attribute (message : String)
  | value (message : String)
  | other (message : String)
deriving DecidableEq

structure PipelineResult where
  sourceSize : Nat
  outputSize : Nat
  spaceSaved : Nat
  backend : String
  resolvedCrf : Int
  vmaf : Option VmafScore
  predicted : Option QualitySearchResult
deriving DecidableEq

inductive ErrorMessage where
  | abort (message : String)
  | failure (e : Failure)
  | unexpected (e : Failure)
deriving DecidableEq

inductive Report where
  | complete (jobId : String) (outputSize spaceSaved sourceSize : Nat) (result : PipelineResult)
  | skipped (jobId reason : String) (e : Failure)
  | failed (jobId : String) (error : ErrorMessage) (retryCount : Nat)
deriving DecidableEq

inductive Site where
  | runPipeline
  | acquireLock
  | lockMatches
  | touchLock
  | lockIsActive
  | atomicSwap
  | rollbackSwap
  | preserveMetadata
  | finish
  | transaction
  | settle
  | releaseArtifacts
  | releaseLock
  | verifyOutput
  | recoverSourcePath
  | recoverOrphanedBackups
  | recoverBackups
  | removeStaleLocks
  | commit
  | processJob
deriving DecidableEq, Repr

inductive Action where
  | exists (f : File)
  | isFile (f : File)
  | glob (f : File)
  | isDir
  | isSymlink (m : Media)
  | stat (m : Media)
  | metadata (call : MetadataCall)
  | unlink (f : File)
  | rename (src dst : Media)
  | replace (src dst : Media)
  | openExclusive
  | writeLock (text : LockText)
  | writeNew (text : LockText)
  | replaceLock
  | readLock
  | now
  | openTransaction
  | readOwn
  | setMutating
  | setConfirmed
  | startHeartbeat
  | stopHeartbeat
  | endTouch
  | checkCancelled
  | beginConfirm
  | passConfirm
  | ffprobe (m : Media)
  | streamInventory (m : Media)
  | decodeSample (m : Media) (offset sample : Rat)
  | hasLibvmaf
  | findQuality (request : SearchRequest)
  | measureVmaf (height targetHeight : Option Nat)
  | unmuxableSubtitles
  | runEncode (request : EncodeRequest)
  | callback (phase : String)
  | abortRequested
  | report (r : Report)
deriving DecidableEq

abbrev Action.Answer : Action → Type
  | .exists _ | .isFile _ | .glob _ | .isDir | .isSymlink _ => Except OSError Bool
  | .stat _ => Except OSError Stat
  | .metadata _ | .unlink _ | .rename _ _ | .replace _ _ => Except OSError Unit
  | .openExclusive | .writeLock _ | .writeNew _ | .replaceLock => Except OSError Unit
  | .readLock => Except OSError LockText
  | .now => Nat
  | .openTransaction | .setMutating | .setConfirmed => Unit
  | .startHeartbeat | .stopHeartbeat | .endTouch | .beginConfirm | .passConfirm => Unit
  | .readOwn => Own
  | .checkCancelled | .hasLibvmaf | .abortRequested => Bool
  | .ffprobe _ => Except ProbeFailure ProbeResult
  | .streamInventory _ => Except ProbeFailure (List StreamInfo)
  | .decodeSample _ _ _ => DecodeOutcome
  | .findQuality _ => Except VmafFailure (Option QualitySearchResult)
  | .measureVmaf _ _ => Except VmafFailure VmafScore
  | .unmuxableSubtitles => List Int
  | .runEncode _ => Except String EncodeResult
  | .callback _ => Option String
  | .report _ => Unit

structure Call where
  site : Site
  action : Action
deriving DecidableEq

abbrev Call.Answer (c : Call) : Type := c.action.Answer

-- What the world decides about one call: whether the system call fails, whether a cancellation
-- is delivered there, and what the external tools answer.
structure Input where
  fault : Bool := false
  torn : Bool := false
  cancelled : Bool := false
  output : Option Bytes := none
  stat : Stat := ⟨0, 0, 0, 0, 0, 0⟩
  probe : Except ProbeFailure ProbeResult := .error (.probeError "")
  streams : Except ProbeFailure (List StreamInfo) := .error (.probeError "")
  decode : DecodeOutcome := .exited 0 ""
  libvmaf : Bool := false
  search : Except VmafFailure (Option QualitySearchResult) := .ok none
  score : Except VmafFailure VmafScore := .error .unavailable
  subtitles : List Int := []
  encode : Except String EncodeResult := .ok ⟨true, none⟩
  raised : Option String := none

structure Hold where
  inode : Nat
  stamp : Nat
  written : Bool
deriving DecidableEq, Repr

structure Notes where
  lateCancel : Bool := false
  lateAbort : Bool := false
  lateFault : Bool := false
  blindRollback : Bool := false
  restoreFailed : Bool := false
deriving DecidableEq, Repr

-- The files of one path, the in-process transaction of each worker, and, from `confirmed` on,
-- history variables that no program reads.
structure PathState where
  source : Option Bytes
  bak : Option Bytes
  tmp : Option Bytes
  lock : Option LockFile
  lockNew : Option LockFile
  clock : Nat
  nextInode : Nat
  own : String → Own
  confirmed : List Bytes
  examined : String → List (Option Bytes)
  notes : String → Notes
  sawLock : Actor → Option LockFile
  hold : String → Option Hold

namespace PathState

def mediaAt (s : PathState) : Media → Option Bytes
  | .source => s.source
  | .bak => s.bak
  | .tmp => s.tmp

def setMedia (s : PathState) : Media → Option Bytes → PathState
  | .source, content => { s with source := content }
  | .bak, content => { s with bak := content }
  | .tmp, content => { s with tmp := content }

def present (s : PathState) : File → Bool
  | .media m => (s.mediaAt m).isSome
  | .lock => s.lock.isSome
  | .lockNew => s.lockNew.isSome

def remove (s : PathState) : File → PathState
  | .media m => s.setMedia m none
  | .lock => { s with lock := none }
  | .lockNew => { s with lockNew := none }

def setOwn (s : PathState) (w : String) (own : Own) : PathState :=
  { s with own := Function.update s.own w own }

def setExamined (s : PathState) (w : String) (examined : List (Option Bytes)) : PathState :=
  { s with examined := Function.update s.examined w examined }

def setNotes (s : PathState) (w : String) (notes : Notes) : PathState :=
  { s with notes := Function.update s.notes w notes }

def setSaw (s : PathState) (a : Actor) (lock : Option LockFile) : PathState :=
  { s with sawLock := Function.update s.sawLock a lock }

def setHold (s : PathState) (w : String) (hold : Option Hold) : PathState :=
  { s with hold := Function.update s.hold w hold }

-- A write through a handle reaches the file only while the lock's name still points at it.
def writeThrough (s : PathState) (handle : Option Nat) (text : LockText) : PathState :=
  match s.lock with
  | some l => if handle = some l.inode then { s with lock := some { l with text := text } } else s
  | none => s

def stampHold (s : PathState) (w : String) (stamp : Option Nat) : PathState :=
  match s.hold w with
  | some h => s.setHold w (some ⟨h.inode, stamp.getD h.stamp, true⟩)
  | none => s

def createLock (s : PathState) (a : Actor) : PathState :=
  let lock : LockFile := ⟨s.nextInode, .invalid⟩
  let created : PathState := { s with lock := some lock, nextInode := s.nextInode + 1 }
  ((created.setOwn a.worker { s.own a.worker with lockHandle := some lock.inode }).setSaw a
    (some lock)).setHold a.worker (some ⟨lock.inode, s.clock, false⟩)

def sawAbsence (s : PathState) (a : Actor) (f : File) : PathState :=
  if f = .lock ∧ s.lock = none then s.setSaw a none else s

def examine (s : PathState) (w : String) (m : Media) : PathState :=
  if m = .source then s.setExamined w (s.source :: s.examined w) else s

section SawAbsence

variable (s : PathState) (a : Actor) (f : File)

@[simp] theorem sawAbsence_source : (s.sawAbsence a f).source = s.source := by
  unfold sawAbsence; split <;> rfl

@[simp] theorem sawAbsence_bak : (s.sawAbsence a f).bak = s.bak := by
  unfold sawAbsence; split <;> rfl

@[simp] theorem sawAbsence_tmp : (s.sawAbsence a f).tmp = s.tmp := by
  unfold sawAbsence; split <;> rfl

@[simp] theorem sawAbsence_lock : (s.sawAbsence a f).lock = s.lock := by
  unfold sawAbsence; split <;> rfl

@[simp] theorem sawAbsence_confirmed : (s.sawAbsence a f).confirmed = s.confirmed := by
  unfold sawAbsence; split <;> rfl

@[simp] theorem sawAbsence_notes : (s.sawAbsence a f).notes = s.notes := by
  unfold sawAbsence; split <;> rfl

@[simp] theorem sawAbsence_examined : (s.sawAbsence a f).examined = s.examined := by
  unfold sawAbsence; split <;> rfl

@[simp] theorem sawAbsence_present (f' : File) : (s.sawAbsence a f).present f' = s.present f' := by
  unfold sawAbsence; split <;> rfl

end SawAbsence

section StampHold

variable (s : PathState) (w : String) (stamp : Option Nat)

@[simp] theorem stampHold_source : (s.stampHold w stamp).source = s.source := by
  unfold stampHold; split <;> rfl

@[simp] theorem stampHold_bak : (s.stampHold w stamp).bak = s.bak := by
  unfold stampHold; split <;> rfl

@[simp] theorem stampHold_tmp : (s.stampHold w stamp).tmp = s.tmp := by
  unfold stampHold; split <;> rfl

@[simp] theorem stampHold_lock : (s.stampHold w stamp).lock = s.lock := by
  unfold stampHold; split <;> rfl

@[simp] theorem stampHold_lockNew : (s.stampHold w stamp).lockNew = s.lockNew := by
  unfold stampHold; split <;> rfl

@[simp] theorem stampHold_clock : (s.stampHold w stamp).clock = s.clock := by
  unfold stampHold; split <;> rfl

@[simp] theorem stampHold_nextInode : (s.stampHold w stamp).nextInode = s.nextInode := by
  unfold stampHold; split <;> rfl

@[simp] theorem stampHold_own : (s.stampHold w stamp).own = s.own := by
  unfold stampHold; split <;> rfl

@[simp] theorem stampHold_confirmed : (s.stampHold w stamp).confirmed = s.confirmed := by
  unfold stampHold; split <;> rfl

@[simp] theorem stampHold_examined : (s.stampHold w stamp).examined = s.examined := by
  unfold stampHold; split <;> rfl

@[simp] theorem stampHold_notes : (s.stampHold w stamp).notes = s.notes := by
  unfold stampHold; split <;> rfl

@[simp] theorem stampHold_sawLock : (s.stampHold w stamp).sawLock = s.sawLock := by
  unfold stampHold; split <;> rfl

end StampHold

@[simp] theorem writeThrough_notes (s : PathState) (handle : Option Nat) (text : LockText) :
    (s.writeThrough handle text).notes = s.notes := by
  unfold writeThrough; split <;> (try split) <;> rfl

@[simp] theorem examine_notes (s : PathState) (w : String) (m : Media) :
    (s.examine w m).notes = s.notes := by
  unfold examine; split <;> rfl

@[simp] theorem setMedia_notes (s : PathState) (m : Media) (content : Option Bytes) :
    (s.setMedia m content).notes = s.notes := by
  cases m <;> rfl

@[simp] theorem remove_notes (s : PathState) (f : File) : (s.remove f).notes = s.notes := by
  rcases f with m | _ | _
  · exact setMedia_notes s m none
  · rfl
  · rfl

end PathState

-- The one content all the checks of a CONFIRM read.
def agreed : List (Option Bytes) → Option Bytes
  | some content :: rest => if rest.all (· == some content) then some content else none
  | _ => none

def moveMedia (s : PathState) (src dst : Media) : PathState :=
  (s.setMedia dst (s.mediaAt src)).setMedia src none

def query (s : PathState) (i : Input) (answer : Bool) : PathState × Except OSError Bool :=
  if i.fault then (s, .error .other) else (s, .ok answer)

def exec (a : Actor) : (c : Call) → Input → PathState → PathState × c.Answer
  | ⟨site, .exists f⟩, i, s =>
    if i.fault then
      (if site = .rollbackSwap ∧ s.present f then
        s.setNotes a.worker { s.notes a.worker with blindRollback := true } else s, .error .other)
    else (s.sawAbsence a f, .ok (s.present f))
  | ⟨_, .isFile f⟩, i, s => query s i (s.present f)
  | ⟨_, .glob f⟩, i, s => query s i (s.present f)
  | ⟨_, .isDir⟩, i, s => query s i true
  | ⟨_, .isSymlink _⟩, i, s => query s i i.torn
  | ⟨site, .stat m⟩, i, s =>
    if i.fault || (s.mediaAt m).isNone then
      (if site = .commit ∧ (s.own a.worker).confirmed then
        s.setNotes a.worker { s.notes a.worker with lateFault := true } else s,
        .error (if i.fault then .other else .notFound))
    else (s.examine a.worker m, .ok { i.stat with size := ((s.mediaAt m).getD []).length })
  | ⟨_, .metadata _⟩, i, s => (s, if i.fault then .error .other else .ok ())
  | ⟨_, .unlink f⟩, i, s =>
    if i.fault then (s, .error .other)
    else if s.present f then
      (if f = .lock then (s.remove f).setHold a.worker none else s.remove f, .ok ())
    else (s, .error .notFound)
  | ⟨_, .rename src dst⟩, i, s =>
    if i.fault then (s, .error .other)
    else if (s.mediaAt src).isSome then (moveMedia s src dst, .ok ())
    else (s, .error .notFound)
  | ⟨site, .replace src dst⟩, i, s =>
    if !i.fault && (s.mediaAt src).isSome then (moveMedia s src dst, .ok ())
    else
      (if site = .rollbackSwap then
        s.setNotes a.worker { s.notes a.worker with restoreFailed := true } else s,
        .error (if i.fault then .other else .notFound))
  | ⟨_, .openExclusive⟩, i, s =>
    if i.fault then (s, .error .other)
    else if s.lock.isSome then (s, .error .fileExists)
    else (s.createLock a, .ok ())
  | ⟨_, .writeLock text⟩, i, s =>
    if i.fault then (s.setHold a.worker none, .error .other)
    else
      ((s.writeThrough (s.own a.worker).lockHandle text).stampHold a.worker text.timestamp, .ok ())
  | ⟨_, .writeNew text⟩, i, s =>
    let inode := (s.lockNew.map LockFile.inode).getD s.nextInode
    let opened : PathState := { s with nextInode := s.nextInode + 1 }
    if i.fault then
      (if i.torn then { opened with lockNew := some ⟨inode, .invalid⟩ } else s, .error .other)
    else ({ opened with lockNew := some ⟨inode, text⟩ }, .ok ())
  | ⟨_, .replaceLock⟩, i, s =>
    match i.fault, s.lockNew with
    | true, _ => (s, .error .other)
    | false, none => (s, .error .notFound)
    | false, some l =>
      (PathState.stampHold { s with lock := some l, lockNew := none } a.worker l.text.timestamp,
        .ok ())
  | ⟨_, .readLock⟩, i, s =>
    match i.fault, s.lock with
    | true, _ => (s.setSaw a none, .error .other)
    | false, none => (s.setSaw a none, .error .notFound)
    | false, some l => (s.setSaw a (some l), .ok l.text)
  | ⟨_, .now⟩, _, s => (s, s.clock)
  | ⟨_, .openTransaction⟩, _, s => (s.setOwn a.worker {}, ())
  | ⟨_, .readOwn⟩, _, s => (s, s.own a.worker)
  | ⟨_, .setMutating⟩, _, s => (s.setOwn a.worker { s.own a.worker with mutating := true }, ())
  | ⟨_, .setConfirmed⟩, _, s => (s.setOwn a.worker { s.own a.worker with confirmed := true }, ())
  | ⟨_, .startHeartbeat⟩, _, s => (s.setOwn a.worker { s.own a.worker with beating := true }, ())
  | ⟨_, .stopHeartbeat⟩, _, s => (s.setOwn a.worker { s.own a.worker with beating := false }, ())
  | ⟨_, .endTouch⟩, _, s => (s.setOwn a.worker { s.own a.worker with touching := false }, ())
  | ⟨_, .checkCancelled⟩, i, s =>
    (if i.cancelled ∧ (s.own a.worker).confirmed then
      s.setNotes a.worker { s.notes a.worker with lateCancel := true } else s, i.cancelled)
  | ⟨_, .beginConfirm⟩, _, s => (s.setExamined a.worker [], ())
  | ⟨_, .passConfirm⟩, _, s =>
    ({ s with confirmed := (agreed (s.examined a.worker)).toList ++ s.confirmed }, ())
  | ⟨_, .ffprobe m⟩, i, s => (s.examine a.worker m, i.probe)
  | ⟨_, .streamInventory _⟩, i, s => (s, i.streams)
  | ⟨_, .decodeSample m _ _⟩, i, s => (s.examine a.worker m, i.decode)
  | ⟨_, .hasLibvmaf⟩, i, s => (s, i.libvmaf)
  | ⟨_, .findQuality _⟩, i, s => (s, i.search)
  | ⟨_, .measureVmaf _ _⟩, i, s => (s, i.score)
  | ⟨_, .unmuxableSubtitles⟩, i, s => (s, i.subtitles)
  | ⟨_, .runEncode _⟩, i, s =>
    (match i.output with
      | some content => { s with tmp := some content }
      | none => s, i.encode)
  | ⟨_, .callback _⟩, i, s => (s, i.raised)
  | ⟨_, .abortRequested⟩, i, s =>
    (if i.cancelled ∧ (s.own a.worker).confirmed then
      s.setNotes a.worker { s.notes a.worker with lateAbort := true } else s, i.cancelled)
  | ⟨_, .report _⟩, _, s => (s, ())

-- The release waits for a touch in flight.
def ready (a : Actor) (c : Call) (s : PathState) : Bool :=
  match c.action with
  | .stopHeartbeat => !(s.own a.worker).touching
  | _ => true

def handler : Handler Actor Call Call.Answer PathState Input where
  exec := exec
  ready := ready

abbrev Worker := Program Call Call.Answer Failure

def act (site : Site) (action : Action) : Worker action.Answer := .call ⟨site, action⟩ .ret

def orRaise {α : Type} (p : Worker (Except OSError α)) : Worker α :=
  p.bind fun r => .ofExcept (r.mapError .os)

end TranscodeForge.SourcePath
