import TranscodeForge.Interaction.Recorded
import TranscodeForge.Scanner.Completion

namespace TranscodeForge.Runner

open Interaction Relational Scheduler Scanner Text

inductive ScanStatus where
  | running
  | complete
  | failed
deriving DecidableEq, Repr

-- A row of `scans`.
structure Scan where
  id : Nat
  library : String
  libraryId : String
  filesFound : Nat := 0
  filesNew : Nat := 0
  filesUpdated : Nat := 0
  filesSkipped : Nat := 0
  startedAt : Instant
  completedAt : Option Instant := none
  status : ScanStatus := .running
deriving DecidableEq, Repr

def Scan.counted (n : Counts) (r : Scan) : Scan :=
  { r with
    filesFound := n.found
    filesNew := n.new
    filesUpdated := n.updated
    filesSkipped := n.skipped }

def Scan.ended (status : ScanStatus) (now : Instant) (r : Scan) : Scan :=
  { r with
    status := status
    completedAt := if status = .running then r.completedAt else some now }

-- The SET clause of `update_scan`.
def Scan.updated (counts : Option Counts) (status : Option ScanStatus) (now : Instant) (r : Scan) :
    Scan :=
  let r := counts.elim r r.counted
  status.elim r fun status => r.ended status now

@[simp] theorem Scan.updated_id (counts : Option Counts) (status : Option ScanStatus)
    (now : Instant) (r : Scan) : (r.updated counts status now).id = r.id := by
  cases counts <;> cases status <;> rfl

theorem Scan.updated_status (counts : Option Counts) (status : Option ScanStatus) (now : Instant)
    (r : Scan) : (r.updated counts status now).status = status.getD r.status := by
  cases counts <;> cases status <;> rfl

structure Library where
  id : String
  name : String
  mediaType : String
  path : Chars
  autoScan : Bool := false
  scanIntervalHours : Nat := 24
  backend : String := "filesystem"
deriving DecidableEq, Repr

-- The arguments of `start_scan`.
structure ScanParams where
  libraryId : String
  libraryName : String
  libraryPath : Chars
  mediaType : String
  limit : Int
deriving DecidableEq, Repr

def Library.params (lib : Library) (limit : Int) : ScanParams :=
  ⟨lib.id, lib.name, lib.path, lib.mediaType, limit⟩

inductive Phase where
  | created
  | running
  | done
deriving DecidableEq, Repr

inductive TaskName where
  | scan (n : Nat)
  | request (n : Nat)
  | scheduledScans
  | lifespan
deriving DecidableEq, Repr

structure ScanTask where
  params : ScanParams
  phase : Phase := .created
deriving DecidableEq, Repr

-- An entry of `_scans`.
structure Slot where
  libraryId : String
  task : Nat
deriving DecidableEq, Repr

-- The process: its tasks, `_scans`, the rows of `scans`, and who has drawn each id of a row.
structure Server where
  tasks : List ScanTask := []
  scans : Table String Slot Slot.libraryId := .empty
  rows : Table Nat Scan Scan.id := .empty
  ids : List TaskName := []
  scheduler : Phase := .created
  closed : Bool := false

-- The commits of the source.
inductive Commit where
  | creation
  | update
  | progress
  | scan
deriving DecidableEq, Repr

inductive Call where
  | begin
  | finish
  | clock
  | sleep
  | newScan
  | startScan (p : ScanParams)
  | liveScans
  | gather (tasks : List Nat)
  | awaitScan (task : Nat)
  | gatherBackground
  | closeDb
  | insertScan (row : Scan)
  | updateScan (id : Nat) (counts : Option Counts) (status : Option ScanStatus)
  | commit (c : Commit)
  | latestStartedAt (libraryId : String)
  | getLibrary (id : String)
  | listLibraries
  | createLibrary (name : String) (path : Chars) (quality : Nat)
  | isDir (path : Chars)
  | walk (path : Chars)
  | openClient
  | closeClient
  | listing
  | nextPage
  | lookup (path : Chars)
  | stat (path : Chars)
  | probe (path : Chars)
  | headBytes (path : Chars)
  | upsert (u : Upsert)
  | pathsForLibrary (libraryId : String)
  | gone (candidates : List (Chars × String))
  | deleteByIds (ids : List String)
  | randomFiles (limit : Int)
  | randomFile
deriving DecidableEq

namespace Call

abbrev Result : Call → Type
  | clock => Instant
  | newScan => Nat
  | startScan _ => Option Nat
  | liveScans => List Nat
  | latestStartedAt _ => Option Instant
  | getLibrary _ => Option Library
  | listLibraries => List Library
  | isDir _ => Bool
  | walk _ => List Entry
  | listing => List (Option (List S3Object))
  | lookup _ => Option Scanner.MediaFile
  | stat _ => Stat
  | probe _ | headBytes _ => ProbeResult
  | pathsForLibrary _ | gone _ => List (Chars × String)
  | randomFiles _ => Nat
  | randomFile => Upsert
  | _ => Unit

-- An await answers with what it waits for, with that call's error, or with the cancellation.
abbrev Answer (c : Call) : Type := Except Error c.Result

end Call

structure Input where
  error : Option Error := none
  now : Instant := 0
  write : Write := .done
  library : Option Library := none
  libraries : List Library := []
  isDir : Bool := true
  entries : List Entry := []
  pages : List (Option (List S3Object)) := []
  row : Option Scanner.MediaFile := none
  stat : Stat := ⟨"", 0⟩
  probe : ProbeResult := ⟨"", 0, 0, none, 0, 0⟩
  paths : List (Chars × String) := []
  files : Nat := 0
  file : Upsert := { libraryId := "", filePath := [], filename := [] }

def Input.reply {α : Type} (i : Input) (a : α) : Except Error α := i.error.elim (.ok a) .error

namespace Server

variable (s : Server)

def isLive (n : Nat) : Bool := (s.tasks[n]?).any fun task => task.phase != .done

-- `start_scan`: no await stands between the check and the reservation.
def startScan (p : ScanParams) : Server × Option Nat :=
  if (s.scans.get? p.libraryId).any fun slot => s.isLive slot.task then (s, none)
  else
    let n := s.tasks.length
    ({ s with
        tasks := s.tasks ++ [{ params := p }]
        scans := s.scans.upsert ⟨p.libraryId, n⟩ (fun slot => { slot with task := n }) fun _ => rfl },
      some n)

def liveScans : List Nat := (s.scans.rows.map Slot.task).filter fun n => s.isLive n

def modifyTask (t : TaskName) (f : ScanTask → ScanTask) : Server :=
  match t with
  | .scan n => { s with tasks := s.tasks.modify n f }
  | _ => s

def finish (t : TaskName) : Server :=
  match t with
  | .scheduledScans => { s with scheduler := .done }
  | t => s.modifyTask t fun task => { task with phase := .done }

def newScan (t : TaskName) : Server := { s with ids := s.ids ++ [t] }

def insertScan (row : Scan) (w : Write) : Server × Except Error Unit :=
  if (s.rows.get? row.id).isSome then (s, .error .database)
  else
    let after := { s with rows := s.rows.insert row }
    match w with
    | .done => (after, .ok ())
    | .lost e => (s, .error e)
    | .unsure e => (after, .error e)

def updateScan (id : Nat) (counts : Option Counts) (status : Option ScanStatus) (now : Instant)
    (w : Write) : Server × Except Error Unit :=
  let after := { s with
    rows := s.rows.update (fun r => r.id = id) (Scan.updated counts status now) (by simp) }
  match w with
  | .done => (after, .ok ())
  | .lost e => (s, .error e)
  | .unsure e => (after, .error e)

def latestStartedAt (libraryId : String) : Option Instant :=
  ((s.rows.select fun r => r.libraryId = libraryId).map Scan.startedAt).max?

def failRunning (now : Instant) : Server :=
  { s with
    rows := s.rows.update (fun r => r.status = .running) (Scan.ended .failed now) fun _ => rfl }

-- Whether what a task waits for is there.
def ready : Call → Bool
  | .gather tasks => tasks.all fun n => !s.isLive n
  | .awaitScan n => !s.isLive n
  | .gatherBackground => s.scheduler = .done
  | _ => true

end Server

-- `randint(5, min(25, limit or 25))`
def randomFiles (limit : Int) (choice : Nat) : Except Error Nat :=
  let most := min 25 (if limit = 0 then 25 else limit)
  if most < 5 then .error .value else .ok (5 + choice % (most.toNat - 4))

def exec (t : TaskName) : (c : Call) → Input → Server → Server × c.Answer
  | .finish, _, s => (s.finish t, .ok ())
  | .clock, i, s => (s, .ok i.now)
  | .newScan, _, s => (s.newScan t, .ok s.ids.length)
  | .startScan p, _, s => ((s.startScan p).1, .ok (s.startScan p).2)
  | .liveScans, _, s => (s, .ok s.liveScans)
  | .gather _, _, s | .gatherBackground, _, s => (s, .ok ())
  | .closeDb, _, s => ({ s with closed := true }, .ok ())
  | .insertScan row, i, s => s.insertScan row i.write
  | .updateScan id counts status, i, s => s.updateScan id counts status i.now i.write
  | .latestStartedAt libraryId, i, s => (s, i.reply (s.latestStartedAt libraryId))
  | .getLibrary _, i, s => (s, i.reply i.library)
  | .listLibraries, i, s => (s, i.reply i.libraries)
  | .isDir _, i, s => (s, i.reply i.isDir)
  | .walk _, i, s => (s, i.reply i.entries)
  | .listing, i, s => (s, i.reply i.pages)
  | .lookup _, i, s => (s, i.reply i.row)
  | .stat _, i, s => (s, i.reply i.stat)
  | .probe _, i, s | .headBytes _, i, s => (s, i.reply i.probe)
  | .pathsForLibrary _, i, s | .gone _, i, s => (s, i.reply i.paths)
  | .randomFiles limit, i, s => (s, randomFiles limit i.files)
  | .randomFile, i, s => (s, .ok i.file)
  | .begin, i, s | .sleep, i, s | .awaitScan _, i, s | .commit _, i, s | .createLibrary _ _ _, i, s
  | .openClient, i, s | .closeClient, i, s | .nextPage, i, s | .upsert _, i, s
  | .deleteByIds _, i, s => (s, i.reply ())

abbrev Coroutine := Program Call Call.Answer Error

def act (c : Call) : Coroutine c.Result := .call c .ofExcept

section Repo

def createScan (id : Nat) (library libraryId : String) (status : ScanStatus) : Coroutine Unit := do
  let now ← act .clock
  act (.insertScan { id, library, libraryId, startedAt := now, status })
  act (.commit .creation)

def updateScan (id : Nat) (counts : Option Counts) (status : Option ScanStatus) : Coroutine Unit := do
  act (.updateScan id counts status)
  act (.commit .update)

end Repo

section Files

variable {libraryId : String}

-- The calls of `scanFile`, on the process.
def fileCall (stat : Coroutine (Except Error Stat)) (probe : Coroutine (Except Error ProbeResult))
    (path : Chars) : (c : ScanCall) → Coroutine c.Answer
  | .lookup => .call (.lookup path) fun answer => .ret answer
  | .stat => stat
  | .probe => probe
  | .upsert u => .call (.upsert u) fun answer => .ret answer

def examineFile (f : Found libraryId) : Coroutine Examined :=
  (scanFile f).expand (fileCall (act (.stat f.path)).attempt (act (.probe f.path)).attempt f.path)

def probeS3Object (o : S3Object) : Coroutine (Except Error ProbeResult) := do
  let size := o.size.getD 0
  match ← (act (.probe o.key)).attempt with
  | .ok probe => pure (.ok { probe with fileSize := size })
  | .error .cancelled => pure (.error .cancelled)
  | .error _ =>
    match ← (act (.headBytes o.key)).attempt with
    | .ok probe => pure (.ok { probe with fileSize := size })
    | .error .cancelled => pure (.error .cancelled)
    | .error _ => pure (.error .probe)

-- The listing has told what `stat` would.
def examineObject (libraryId : String) (o : S3Object) : Coroutine Examined :=
  (scanFile (o.found libraryId)).expand (fileCall (.ret (o.found libraryId).stat) (probeS3Object o) o.key)

-- The files of one list. An exception leaves the counts as they are by then.
def scanFiles {α : Type} (limit : Int) (examine : α → Coroutine Examined)
    (tally : Counts → Examined → Counts) (progress : Counts → Coroutine Unit) :
    List α → Counts → Coroutine (Counts × Option Error)
  | [], n => pure (n, none)
  | f :: files, n =>
    if 0 < limit ∧ limit ≤ n.found then pure (n, none)
    else do
      let n := { n with found := n.found + 1 }
      match ← (examine f).attempt with
      | .error e => pure (n, some e)
      | .ok examined =>
        let n := tally n examined
        if (examined = .updated ∨ examined = .added) ∧ n.found % 50 = 0 then
          match ← (progress n).attempt with
          | .error e => pure (n, some e)
          | .ok () => scanFiles limit examine tally progress files n
        else scanFiles limit examine tally progress files n

def pruneAbsent (libraryId : String) (walked : List Chars) : Coroutine Nat := do
  let known ← act (.pathsForLibrary libraryId)
  let gone ← act (.gone (known.filter fun row => row.1 ∉ walked))
  if gone = [] then pure 0
  else do
    act (.deleteByIds (gone.map Prod.snd))
    pure gone.length

end Files

section Scanners

variable (t : CharTables)

-- The `try` block of `scan_library`.
def walkLibrary (id : Nat) (p : ScanParams) : Coroutine (Counts × Option Error) := do
  match ← (act (.walk p.libraryPath)).attempt with
  | .error e => pure ({}, some e)
  | .ok entries =>
    let files := listVideoFiles t entries
    let progress n := (updateScan id (some n) none).bind fun _ => act (.commit .progress)
    let (n, raised) ← scanFiles p.limit examineFile tallyFile progress
      (files.map (·.found t p.libraryId p.mediaType)) {}
    if raised.isNone ∧ p.limit = 0 ∧ 0 < n.found then
      match ← (pruneAbsent p.libraryId (files.map Entry.path)).attempt with
      | .error e => pure (n, some e)
      | .ok removed => pure ({ n with removed := removed }, none)
    else pure (n, raised)

def scanLibrary (p : ScanParams) : Coroutine Unit := do
  let isDir ← act (.isDir p.libraryPath)
  let id ← act .newScan
  if isDir then
    createScan id p.libraryName p.libraryId .running
    let (n, raised) ← walkLibrary t id p
    match raised with
    | none => updateScan id (some n) (some .complete)
    | some e => do
      updateScan id (some n) (some .failed)
      .raise e
  else
    createScan id p.libraryName p.libraryId .failed
    updateScan id none (some .failed)

-- The `break` at the limit leaves one page.
def scanPages (p : ScanParams) :
    List (Option (List S3Object)) → Counts → Coroutine (Counts × Option Error)
  | [], n => pure (n, none)
  | page :: pages, n => do
    match ← (act .nextPage).attempt with
    | .error e => pure (n, some e)
    | .ok () =>
      let (n, raised) ← scanFiles p.limit (examineObject p.libraryId) tallyObject
        (fun _ => act (.commit .progress)) ((page.getD []).filter (isCandidate t)) n
      if raised.isNone then scanPages p pages n else pure (n, raised)

def scanListing (p : ScanParams) : Coroutine (Counts × Option Error) := do
  match ← (act .listing).attempt with
  | .error e => pure ({}, some e)
  | .ok pages => scanPages t p pages {}

-- The `try` block of `scan_s3_library`; the client is closed on the way out.
def scanBucket (p : ScanParams) : Coroutine (Counts × Option Error) := do
  match ← (act .openClient).attempt with
  | .error e => pure ({}, some e)
  | .ok () =>
    let (n, raised) ← scanListing t p
    match ← (act .closeClient).attempt with
    | .error e => pure (n, some e)
    | .ok () => pure (n, raised)

def scanS3Library (p : ScanParams) : Coroutine Unit := do
  let id ← act .newScan
  createScan id p.libraryName p.libraryId .running
  let (n, raised) ← scanBucket t p
  match raised with
  | none => do
    act (.commit .scan)
    updateScan id (some n) (some .complete)
  | some e => do
    updateScan id none (some .failed)
    .raise e

def simulateFiles : Nat → Nat → Coroutine Nat
  | 0, new => pure new
  | files + 1, new => do
    let u ← act .randomFile
    match ← act (.lookup u.filePath) with
    | some _ => simulateFiles files new
    | none => do
      act (.upsert u)
      simulateFiles files (new + 1)

def simulateScan (p : ScanParams) : Coroutine Unit := do
  let id ← act .newScan
  createScan id p.libraryName p.libraryId .running
  let files ← act (.randomFiles p.limit)
  let new ← simulateFiles files 0
  updateScan id (some { found := files, new := new, skipped := files - new }) (some .complete)

structure Settings where
  demoMode : Bool := false
  libraries : List (String × Chars × Nat) := []
deriving DecidableEq, Repr

variable (settings : Settings)

-- Its exceptions are logged; the cancellation leaves the task.
def runScan (p : ScanParams) : Coroutine Unit :=
  let scan : Coroutine Unit :=
    if settings.demoMode then simulateScan p
    else do
      match ← act (.getLibrary p.libraryId) with
      | none => pure ()
      | some lib => if lib.backend = "s3" then scanS3Library t p else scanLibrary t p
  scan.rescue fun e => if e = .cancelled then .raise e else pure ()

end Scanners

section Callers

variable (settings : Settings)

inductive Reply where
  | unknownLibrary
  | notFound
  | conflict (busy : List String)
  | started (names skipped : List String)
  | nothing
deriving DecidableEq, Repr

def startEach (limit : Int) : List Library → List String × List String →
    Coroutine (List String × List String)
  | [], names => pure names
  | lib :: libs, (started, busy) => do
    match ← act (.startScan (lib.params limit)) with
    | some _ => startEach limit libs (started ++ [lib.name], busy)
    | none => startEach limit libs (started, busy ++ [lib.name])

def seedLibraries : Coroutine (List Library) := do
  .each settings.libraries fun (name, path, quality) => act (.createLibrary name path quality)
  act .listLibraries

def allLibraries : Coroutine (List Library) := do
  let libs ← act .listLibraries
  if libs = [] then seedLibraries settings else pure libs

def scanTargets (libraryId : Option String) (libs : List Library) : List Library :=
  match libraryId.filter (· ≠ "") with
  | none => libs
  | some id => libs.filter fun lib => lib.id = id

def triggerScan (libraryId : Option String) (limit : Int) : Coroutine Reply := do
  let libs ← allLibraries settings
  let targets := scanTargets libraryId libs
  if (libraryId.filter (· ≠ "")).isSome ∧ targets = [] then pure .unknownLibrary
  else do
    let (started, busy) ← startEach limit targets ([], [])
    if busy ≠ [] ∧ started = [] then pure (.conflict busy) else pure (.started started busy)

def triggerLibraryScan (id : String) (maxFiles : Int) : Coroutine Reply := do
  match ← act (.getLibrary id) with
  | none => pure .notFound
  | some lib =>
    match ← act (.startScan (lib.params maxFiles)) with
    | none => pure (.conflict [lib.name])
    | some _ => pure (.started [lib.name] [])

-- `timedelta(hours=...)`, in the clock's seconds.
def isDue (now : Instant) (lib : Library) (last : Option Instant) : Bool :=
  last.all fun last => decide ((3600 * lib.scanIntervalHours : Nat) ≤ (now : Int) - last)

def tickLibrary (now : Instant) (lib : Library) : Coroutine Unit :=
  if lib.autoScan then do
    let last ← act (.latestStartedAt lib.id)
    if isDue now lib last then
      match ← act (.startScan (lib.params 0)) with
      | none => pure ()
      | some task => act (.awaitScan task)
    else pure ()
  else pure ()

def tick : Coroutine Unit := do
  let now ← act .clock
  let libs ← act .listLibraries
  .each libs (tickLibrary now)

-- The loop as far as so many ticks.
def runScheduledScans : Nat → Coroutine Unit
  | 0 => pure ()
  | ticks + 1 => do
    tick.rescue fun e => if e = .cancelled then .raise e else pure ()
    act .sleep
    runScheduledScans ticks

def cancelAll : Coroutine Unit := do
  let tasks ← act .liveScans
  if tasks = [] then pure () else act (.gather tasks)

-- `_release`, as far as the scans go.
def release : Coroutine Unit := do
  act .gatherBackground
  cancelAll
  act .closeDb

end Callers

inductive Request where
  | scan (p : ScanParams)
  | triggerScan (libraryId : Option String) (limit : Int)
  | triggerLibraryScan (id : String) (maxFiles : Int)
  | scheduledScans (ticks : Nat)
  | release
deriving DecidableEq, Repr

variable (t : CharTables) (settings : Settings)

-- A task is done when its coroutine has ended.
def ending (p : Coroutine Unit) : Coroutine Reply :=
  p.attempt.bind fun _ => (act .finish).bind fun _ => pure .nothing

-- The loop ends in no other way than by an exception.
def supervised (p : Coroutine Unit) : Coroutine Reply :=
  p.attempt.bind fun
    | .ok () => pure .nothing
    | .error _ => (act .finish).bind fun _ => pure .nothing

def Request.body : Request → Coroutine Reply
  | .scan p => ending ((act .begin).bind fun _ => runScan t settings p)
  | .triggerScan libraryId limit => Runner.triggerScan settings libraryId limit
  | .triggerLibraryScan id maxFiles => Runner.triggerLibraryScan id maxFiles
  | .scheduledScans ticks => supervised ((act .begin).bind fun _ => runScheduledScans ticks)
  | .release => Runner.release.bind fun _ => pure .nothing

def start : TaskName → Request → Server → Option Server
  | .scan n, .scan p, s =>
    if s.tasks[n]? = some { params := p } then
      some (s.modifyTask (.scan n) fun task => { task with phase := .running })
    else none
  | .request _, .triggerScan _ _, s | .request _, .triggerLibraryScan _ _, s
  | .lifespan, .release, s => some s
  | .scheduledScans, .scheduledScans _, s =>
    if s.scheduler = .created then some { s with scheduler := .running } else none
  | _, _, _ => none

def server : System TaskName Request Empty Call Call.Answer Server Input Error Reply where
  handler := { exec := exec, ready := fun _ c s => s.ready c }
  body _ r := r.body t settings
  start := start
  disturb k := k.elim
  kills k := k.elim

-- The process after its startup. The demo has no loop, and its startup does not look at the rows
-- of an earlier process.
def Server.boot (rows : Table Nat Scan Scan.id) (now : Instant) : Server :=
  let drawn := rows.rows.foldr (fun r n => max (r.id + 1) n) 0
  let s : Server := { rows := rows, ids := List.replicate drawn .lifespan }
  if settings.demoMode then { s with scheduler := .done } else s.failRunning now

end TranscodeForge.Runner
