import TranscodeForge.Scanner.Inventory
import TranscodeForge.Worker.Filesystem
import Mathlib.Data.List.Infix
import Mathlib.Data.List.Sort
import Mathlib.Data.String.Basic

namespace TranscodeForge.Scanner

open Scheduler Text

section Names

-- What Python knows of characters outside ASCII.
structure CharTables where
  isSpace : Char → Bool
  digit : Char → Option Nat
  lower : Chars → Chars

variable (t : CharTables)

def videoExtensions : List Chars :=
  [".mkv", ".mp4", ".avi", ".wmv", ".flv", ".mov", ".m4v", ".ts", ".m2ts", ".webm"].map
    String.toList

def pipelineArtifactMarkers : List Chars := [".tf_lock", ".tf_tmp", ".tf_bak"].map String.toList

def stemSuffix (name : Chars) : Chars × Chars :=
  let (stem, suffix) := Filesystem.stemSuffix (String.ofList name)
  (stem.toList, suffix.toList)

def isVideoFile (name : Chars) : Bool := t.lower (stemSuffix name).2 ∈ videoExtensions

def isPipelineArtifact (name : Chars) : Bool :=
  pipelineArtifactMarkers.any fun marker => marker <:+: name

def joined (dir name : Chars) : Chars := if dir = ['/'] then '/' :: name else dir ++ '/' :: name

def baseName (path : Chars) : Chars := afterLast '/' path

def parentDir (path : Chars) : Chars :=
  match beforeLast '/' path with
  | none => ['.']
  | some [] => ['/']
  | some dir => dir

-- `PurePath.parts` of an absolute path.
def pathParts (path : Chars) : List Chars := ['/'] :: (path.splitOn '/').filter (· ≠ [])

def strip (text : Chars) : Chars :=
  ((text.dropWhile t.isSpace).reverse.dropWhile t.isSpace).reverse

-- `\d+` and what follows it.
def number (text : Chars) : Option (Nat × Chars) :=
  let digits := text.takeWhile fun c => (t.digit c).isSome
  if digits = [] then none
  else some (digits.foldl (fun n c => 10 * n + (t.digit c).getD 0) 0, text.drop digits.length)

-- The part of the two patterns behind the name of the show.
def episodeMark (marked : Bool) (text : Chars) : Option (Nat × Nat) := do
  let text := text.dropWhile t.isSpace
  let text := if text.head? = some '-' ∨ text.head? = some '.' then text.drop 1 else text
  let text := text.dropWhile t.isSpace
  guard (!marked || text.head? = some 's' || text.head? = some 'S')
  let (season, text) ← number t (if marked then text.drop 1 else text)
  let separator := if marked then ['e', 'E'] else ['x', 'X']
  guard (text.head?.any (· ∈ separator))
  let (episode, _) ← number t (text.drop 1)
  pure (season, episode)

-- `^(?P<show>.+?)` and the rest of a pattern.
def matchEpisode (marked : Bool) (show_ : Chars) : Chars → Option (Chars × Nat × Nat)
  | [] => none
  | c :: text =>
    if c = '\n' then none
    else
      match episodeMark t marked text with
      | some (season, episode) => some (show_ ++ [c], season, episode)
      | none => matchEpisode marked (show_ ++ [c]) text

def parseTvInfo (path : Chars) : Option Chars × Option Nat × Option Nat :=
  let stem := (stemSuffix (baseName path)).1
  match matchEpisode t true [] stem <|> matchEpisode t false [] stem with
  | some (name, season, episode) =>
    (some (strip t (name.map fun c => if c = '.' then ' ' else c)), some season, some episode)
  | none =>
    match (pathParts path).reverse with
    | _ :: parent :: grandparent :: _ =>
      (some (if "season".toList <+: t.lower parent then grandparent else parent), none, none)
    | _ => (none, none, none)

end Names

structure Stat where
  mtime : String
  size : Int
deriving DecidableEq, Repr

-- A statement with its commit: an error leaves the rows as they were, or comes when they are
-- written.
inductive Write where
  | done
  | lost (e : Error)
  | unsure (e : Error)
deriving DecidableEq, Repr

def Write.carry (w : Write) (before after : Inventory) : Inventory × Except Error Unit :=
  match w with
  | .done => (after, .ok ())
  | .lost e => (before, .error e)
  | .unsure e => (after, .error e)

def store (inv : Inventory) (u : Upsert) (id : String) (now : Instant) (w : Write) :
    Inventory × Except Error Unit :=
  match inv.upsert u id now with
  | .ok after => w.carry inv after
  | .error e => (inv, .error e)

structure Counts where
  found : Nat := 0
  new : Nat := 0
  updated : Nat := 0
  skipped : Nat := 0
  failed : Nat := 0
  removed : Nat := 0
deriving DecidableEq, Repr

inductive Examined where
  | unchanged
  | unprobed
  | updated
  | added
deriving DecidableEq, Repr

-- A video file of the library, with what the calls about it answer. An answer may be the
-- cancellation of the scan.
structure Found (libraryId : String) where
  path : Chars
  stat : Except Error Stat
  unchanged : Stat → MediaFile → Bool
  probe : Except Error (Option ProbeResult)
  upsert : Stat → ProbeResult → Upsert
  upsert_path : ∀ stat probe, (upsert stat probe).filePath = path
  upsert_library : ∀ stat probe, (upsert stat probe).libraryId = libraryId
  lookup : Option Error
  fileId : String
  now : Instant
  write : Write
  progress : Option Error

section Loop

variable {libraryId : String}

-- The body of the loop that the two scanners share.
def examine (f : Found libraryId) (inv : Inventory) : Inventory × Except Error Examined :=
  match f.lookup, f.stat with
  | some e, _ => (inv, .error e)
  | none, .error e => (inv, .error e)
  | none, .ok stat =>
    if (inv.get? f.path).any (f.unchanged stat) then (inv, .ok .unchanged)
    else
      match f.probe with
      | .error e => (inv, .error e)
      | .ok none => (inv, .ok .unprobed)
      | .ok (some probe) =>
        match store inv (f.upsert stat probe) f.fileId f.now f.write with
        | (after, .error e) => (after, .error e)
        | (after, .ok ()) => (after, .ok (if (inv.get? f.path).isSome then .updated else .added))

-- The progress update of every 50th file, where the loop gets that far.
def progressError (f : Found libraryId) (examined : Examined) (n : Counts) : Option Error :=
  if (examined = .updated ∨ examined = .added) ∧ n.found % 50 = 0 then f.progress else none

def scanFiles (limit : Int) (tally : Counts → Examined → Counts) :
    List (Found libraryId) → Counts → Inventory → Inventory × Except Error Counts
  | [], n, inv => (inv, .ok n)
  | f :: files, n, inv =>
    if 0 < limit ∧ limit ≤ n.found then (inv, .ok n)
    else
      match examine f inv with
      | (after, .error e) => (after, .error e)
      | (after, .ok examined) =>
        let n := tally { n with found := n.found + 1 } examined
        match progressError f examined n with
        | some e => (after, .error e)
        | none => scanFiles limit tally files n after

end Loop

inductive Ended where
  | complete (n : Counts)
  | failed
  | raised (e : Error)
deriving DecidableEq, Repr

def closing (closed : Option Error) : Inventory × Except Error Counts → Inventory × Ended
  | (inv, .error e) => (inv, .raised e)
  | (inv, .ok n) =>
    match closed with
    | some e => (inv, .raised e)
    | none => (inv, .complete n)

section FilesystemScan

variable (t : CharTables)

-- A file that `os.walk` names.
structure Entry where
  dir : Chars
  name : Chars
  isFile : Bool
  isSymlink : Bool
  stat : Except Error Stat
  probe : Except Error ProbeResult
  lookup : Option Error := none
  fileId : String
  now : Instant
  write : Write := .done
  progress : Option Error := none

def Entry.path (f : Entry) : Chars := joined f.dir f.name

structure PruneAnswers where
  known : Option Error := none
  stat : Chars → Except Error Unit
  exists_ : Chars → Bool
  write : Write := .done

structure Tree where
  isDir : Except Error Bool
  created : Option Error := none
  walk : Except Error (List Entry)
  prune : PruneAnswers
  closed : Option Error := none

def listVideoFiles (entries : List Entry) : List Entry :=
  (entries.filter fun f =>
    f.isFile && !f.isSymlink && isVideoFile t f.name && !isPipelineArtifact f.name).insertionSort
      fun f g => pathParts f.path ≤ pathParts g.path

def artifactPaths (path : Chars) : Except Error (List Chars) :=
  let name := baseName path
  if name = [] ∨ name = ['.'] then .error .value
  else
    let artifacts := Filesystem.pipelineArtifacts (String.ofList name)
    .ok ([artifacts.lock, artifacts.tmp, artifacts.bak].map fun a =>
      joined (parentDir path) a.toList)

def isGone (answers : PruneAnswers) (path : Chars) : Except Error Bool :=
  match answers.stat path with
  | .ok () | .error .os | .error .timeout => .ok false
  | .error .notFound | .error .notADirectory =>
    (artifactPaths path).map fun artifacts => !artifacts.any answers.exists_
  | .error e => .error e

def goneAmong (answers : PruneAnswers) :
    List (Chars × String) → Except Error (List (Chars × String))
  | [] => .ok []
  | known :: rest =>
    match isGone answers known.1 with
    | .error e => .error e
    | .ok gone => (goneAmong answers rest).map fun rest => if gone then known :: rest else rest

-- The deletes go in chunks, in one transaction.
def pruneAbsent (libraryId : String) (walked : List Chars) (answers : PruneAnswers)
    (inv : Inventory) : Inventory × Except Error Nat :=
  match answers.known with
  | some e => (inv, .error e)
  | none =>
    let candidates := (inv.pathsForLibrary libraryId).filter fun known => known.1 ∉ walked
    match goneAmong answers candidates with
    | .error e => (inv, .error e)
    | .ok gone =>
      if gone = [] then (inv, .ok 0)
      else
        match answers.write.carry inv (inv.deleteByIds (gone.map Prod.snd)) with
        | (after, .error e) => (after, .error e)
        | (after, .ok ()) => (after, .ok gone.length)

def Entry.found (libraryId mediaType : String) (f : Entry) : Found libraryId where
  path := f.path
  stat := f.stat
  unchanged stat row := row.fileModifiedAt = some stat.mtime && row.fileSize = some stat.size
  probe :=
    match f.probe with
    | .ok probe => .ok (some probe)
    | .error .probe => .ok none
    | .error e => .error e
  upsert stat probe :=
    let (show_, season, episode) :=
      if mediaType = "tv" then parseTvInfo t f.path else (none, none, none)
    { libraryId := libraryId
      filePath := f.path
      filename := f.name
      showName := show_
      season := season
      episode := episode
      videoCodec := some probe.videoCodec
      resolution := some probe.resolution
      width := some probe.width
      height := some probe.height
      bitrate := probe.bitrate
      duration := some probe.duration
      fileSize := some probe.fileSize
      fileModifiedAt := some stat.mtime }
  upsert_path _ _ := rfl
  upsert_library _ _ := rfl
  lookup := f.lookup
  fileId := f.fileId
  now := f.now
  write := f.write
  progress := f.progress

def tallyFile (n : Counts) : Examined → Counts
  | .unchanged | .unprobed => { n with skipped := n.skipped + 1 }
  | .updated => { n with updated := n.updated + 1 }
  | .added => { n with new := n.new + 1 }

def scanLibrary (libraryId mediaType : String) (tree : Tree) (limit : Int) (inv : Inventory) :
    Inventory × Ended :=
  match tree.isDir, tree.created with
  | .error e, _ | .ok _, some e => (inv, .raised e)
  | .ok false, none => (inv, .failed)
  | .ok true, none =>
    match tree.walk with
    | .error e => (inv, .raised e)
    | .ok entries =>
      let files := listVideoFiles t entries
      match scanFiles limit tallyFile (files.map (·.found t libraryId mediaType)) {} inv with
      | (after, .error e) => (after, .raised e)
      | (after, .ok n) =>
        if limit = 0 ∧ 0 < n.found then
          closing tree.closed
            ((pruneAbsent libraryId (files.map Entry.path) tree.prune after).map id
              (·.map fun removed => { n with removed := removed }))
        else closing tree.closed (after, .ok n)

end FilesystemScan

section S3Scan

variable (t : CharTables)

structure S3Object where
  key : Chars
  size : Option Int := none
  lastModified : Option String := none
  requestedAt : String := ""
  presigned : Except Error ProbeResult
  headBytes : Except Error ProbeResult
  lookup : Option Error := none
  fileId : String
  now : Instant
  write : Write := .done
  progress : Option Error := none

-- The pages of the listing, up to one that cannot be had.
structure Bucket where
  created : Option Error := none
  client : Option Error := none
  pages : List (Except Error (Option (List S3Object)))
  commit : Option Error := none
  closed : Option Error := none

def fileOfKey (key : Chars) : Chars := afterLast '/' (key.reverse.dropWhile (· == '/')).reverse

def isS3VideoFile (key : Chars) : Bool := isVideoFile t (fileOfKey key)

def isCandidate (o : S3Object) : Bool := o.key.getLast? ≠ some '/' && isS3VideoFile t o.key

-- An error ends an attempt, the cancellation the scan.
def attempt (probe : Except Error ProbeResult) (size : Int)
    (otherwise : Except Error (Option ProbeResult)) : Except Error (Option ProbeResult) :=
  match probe with
  | .ok probe => .ok (some { probe with fileSize := size })
  | .error .cancelled => .error .cancelled
  | .error _ => otherwise

def probeS3Object (o : S3Object) : Except Error (Option ProbeResult) :=
  let size := o.size.getD 0
  attempt o.presigned size (attempt o.headBytes size (.ok none))

def S3Object.found (libraryId : String) (o : S3Object) : Found libraryId where
  path := o.key
  stat := .ok ⟨o.lastModified.getD o.requestedAt, o.size.getD 0⟩
  unchanged stat row := row.fileModifiedAt = some stat.mtime
  probe := probeS3Object o
  upsert stat probe :=
    { libraryId := libraryId
      filePath := o.key
      filename := fileOfKey o.key
      videoCodec := some probe.videoCodec
      resolution := some probe.resolution
      width := some probe.width
      height := some probe.height
      bitrate := probe.bitrate
      duration := some probe.duration
      fileSize := some probe.fileSize
      fileModifiedAt := some stat.mtime }
  upsert_path _ _ := rfl
  upsert_library _ _ := rfl
  lookup := o.lookup
  fileId := o.fileId
  now := o.now
  write := o.write
  progress := o.progress

def tallyObject (n : Counts) : Examined → Counts
  | .unchanged => { n with skipped := n.skipped + 1 }
  | .unprobed => { n with failed := n.failed + 1 }
  | .updated => { n with updated := n.updated + 1 }
  | .added => { n with new := n.new + 1 }

-- The `break` at the limit leaves one page.
def scanPages (libraryId : String) (limit : Int) :
    List (Except Error (Option (List S3Object))) → Counts → Inventory →
      Inventory × Except Error Counts
  | [], n, inv => (inv, .ok n)
  | .error e :: _, _, inv => (inv, .error e)
  | .ok none :: pages, n, inv => scanPages libraryId limit pages n inv
  | .ok (some objects) :: pages, n, inv =>
    match scanFiles limit tallyObject ((objects.filter (isCandidate t)).map (·.found libraryId))
      n inv with
    | (after, .error e) => (after, .error e)
    | (after, .ok n) => scanPages libraryId limit pages n after

def scanS3Library (libraryId : String) (bucket : Bucket) (limit : Int) (inv : Inventory) :
    Inventory × Ended :=
  match bucket.created, bucket.client with
  | some e, _ | none, some e => (inv, .raised e)
  | none, none =>
    match scanPages t libraryId limit bucket.pages {} inv with
    | (after, .error e) => (after, .raised e)
    | (after, .ok n) =>
      match bucket.commit with
      | some e => (after, .raised e)
      | none => closing bucket.closed (after, .ok n)

end S3Scan

section Dispatch

inductive Backend where
  | filesystem (path : Chars)
  | s3 (bucket keyPrefix : Chars)
deriving DecidableEq, Repr

structure Library where
  mediaType : String
  backend : Backend
deriving DecidableEq, Repr

-- One scan: the library's row at that time, if it has one, and what the storage answers.
structure ScanRequest where
  library : Option Library
  limit : Int := 0
  tree : Chars → Tree
  bucket : Chars → Chars → Bucket

def runScan (t : CharTables) (libraryId : String) (request : ScanRequest) (inv : Inventory) :
    Inventory × Ended :=
  match request.library with
  | none => (inv, .failed)
  | some library =>
    match library.backend with
    | .filesystem path =>
      scanLibrary t libraryId library.mediaType (request.tree path) request.limit inv
    | .s3 bucket keyPrefix =>
      scanS3Library t libraryId (request.bucket bucket keyPrefix) request.limit inv

end Dispatch

end TranscodeForge.Scanner
