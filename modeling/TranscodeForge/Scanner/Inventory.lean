import TranscodeForge.Relational.Table
import TranscodeForge.Scheduler.Models
import TranscodeForge.Text.Url

namespace TranscodeForge.Scanner

open Relational Scheduler Text

structure ProbeResult where
  videoCodec : String
  width : Int
  height : Int
  bitrate : Option Int
  duration : Rat
  fileSize : Int
deriving DecidableEq

def ProbeResult.resolution (probe : ProbeResult) : String :=
  toString probe.width ++ "x" ++ toString probe.height

-- A row of `media_files`.
structure MediaFile where
  id : String
  libraryId : String
  filePath : Chars
  filename : Chars
  showName : Option Chars := none
  season : Option Nat := none
  episode : Option Nat := none
  videoCodec : Option String := none
  audioCodec : Option String := none
  resolution : Option String := none
  width : Option Int := none
  height : Option Int := none
  bitrate : Option Int := none
  duration : Option Rat := none
  fileSize : Option Int := none
  transcodeStatus : TranscodeStatus := .pending
  skipReason : Option String := none
  jobId : Option String := none
  fileModifiedAt : Option String := none
  scannedAt : Instant
  updatedAt : Instant
deriving DecidableEq

-- `file_path` is unique, and so is the primary key.
structure Inventory where
  files : Table Chars MediaFile MediaFile.filePath
  ids : (files.rows.map MediaFile.id).Nodup

inductive Error where
  | probe
  | notFound
  | notADirectory
  | os
  | value
  | database
  | timeout
  | cancelled
  | other
deriving DecidableEq, Repr

-- The arguments of `upsert_media_file`.
structure Upsert where
  libraryId : String
  filePath : Chars
  filename : Chars
  showName : Option Chars := none
  season : Option Nat := none
  episode : Option Nat := none
  videoCodec : Option String := none
  audioCodec : Option String := none
  resolution : Option String := none
  width : Option Int := none
  height : Option Int := none
  bitrate : Option Int := none
  duration : Option Rat := none
  fileSize : Option Int := none
  fileModifiedAt : Option String := none
deriving DecidableEq

def initialStatus : Option String → TranscodeStatus × Option String
  | none | some "" => (.pending, none)
  | some "hevc" => (.complete, some "already_hevc")
  | some "h264" => (.needsTranscode, none)
  | some _ => (.skipped, some "not_h264")

namespace Upsert

variable (u : Upsert)

def row (id : String) (now : Instant) : MediaFile where
  id := id
  libraryId := u.libraryId
  filePath := u.filePath
  filename := u.filename
  showName := u.showName
  season := u.season
  episode := u.episode
  videoCodec := u.videoCodec
  audioCodec := u.audioCodec
  resolution := u.resolution
  width := u.width
  height := u.height
  bitrate := u.bitrate
  duration := u.duration
  fileSize := u.fileSize
  transcodeStatus := (initialStatus u.videoCodec).1
  skipReason := (initialStatus u.videoCodec).2
  fileModifiedAt := u.fileModifiedAt
  scannedAt := now
  updatedAt := now

-- DO UPDATE SET.
def onto (now : Instant) (r : MediaFile) : MediaFile :=
  let sameCodec : Bool := u.videoCodec = none || u.videoCodec = r.videoCodec
  { r with
    videoCodec := u.videoCodec
    audioCodec := u.audioCodec
    resolution := u.resolution
    width := u.width
    height := u.height
    bitrate := u.bitrate
    duration := u.duration
    fileSize := u.fileSize
    transcodeStatus := if sameCodec then r.transcodeStatus else (initialStatus u.videoCodec).1
    skipReason := if sameCodec then r.skipReason else (initialStatus u.videoCodec).2
    fileModifiedAt := u.fileModifiedAt
    scannedAt := now
    updatedAt := now }

@[simp] theorem onto_id (now : Instant) (r : MediaFile) : (u.onto now r).id = r.id := rfl

@[simp] theorem onto_libraryId (now : Instant) (r : MediaFile) :
    (u.onto now r).libraryId = r.libraryId := rfl

@[simp] theorem onto_filePath (now : Instant) (r : MediaFile) :
    (u.onto now r).filePath = r.filePath := rfl

end Upsert

namespace Inventory

def get? (inv : Inventory) (path : Chars) : Option MediaFile := inv.files.get? path

theorem ids_update {files : Table Chars MediaFile MediaFile.filePath} {p : MediaFile → Bool}
    {set : MediaFile → MediaFile} {hset : ∀ r, (set r).filePath = r.filePath}
    (hid : ∀ r, (set r).id = r.id) (h : (files.rows.map MediaFile.id).Nodup) :
    ((files.update p set hset).rows.map MediaFile.id).Nodup := by
  have hids : (files.update p set hset).rows.map MediaFile.id = files.rows.map MediaFile.id := by
    simp only [Table.update, List.map_map]
    refine List.map_congr_left fun r _ => ?_
    by_cases hp : p r <;> simp [hp, hid]
  rw [hids]
  exact h

theorem ids_insert {files : Table Chars MediaFile MediaFile.filePath} {r : MediaFile}
    (hfree : files.get? r.filePath = none) (hid : r.id ∉ files.rows.map MediaFile.id)
    (h : (files.rows.map MediaFile.id).Nodup) :
    ((files.insert r).rows.map MediaFile.id).Nodup := by
  have hpath : r.filePath ∉ files.rows.map MediaFile.filePath := by
    intro hmem
    obtain ⟨r', hr', hkey⟩ := List.mem_map.mp hmem
    exact Table.get?_eq_none.mp hfree r' hr' hkey
  rw [Table.insert, dif_neg hpath]
  dsimp only
  rw [List.map_append, List.nodup_append]
  refine ⟨h, List.nodup_singleton _, ?_⟩
  rintro a ha b hb rfl
  rw [List.map_singleton, List.mem_singleton] at hb
  exact hid (hb ▸ ha)

-- INSERT ON CONFLICT(file_path); an id that is taken is an `IntegrityError`.
def upsert (inv : Inventory) (u : Upsert) (id : String) (now : Instant) : Except Error Inventory :=
  match hget : inv.get? u.filePath with
  | some _ => .ok {
      files := inv.files.update (fun r => r.filePath = u.filePath) (u.onto now) (u.onto_filePath now)
      ids := ids_update (u.onto_id now) inv.ids }
  | none =>
    if hid : id ∈ inv.files.rows.map MediaFile.id then .error .database
    else .ok {
      files := inv.files.insert (u.row id now)
      ids := ids_insert hget hid inv.ids }

def pathsForLibrary (inv : Inventory) (libraryId : String) : List (Chars × String) :=
  (inv.files.select fun r => r.libraryId = libraryId).map fun r => (r.filePath, r.id)

def deleteByIds (inv : Inventory) (ids : List String) : Inventory where
  files := inv.files.delete fun r => r.id ∈ ids
  ids := (List.filter_sublist.map MediaFile.id).nodup inv.ids

-- Whose row a path has.
def holder (inv : Inventory) (path : Chars) : Option String := (inv.get? path).map MediaFile.libraryId

end Inventory

end TranscodeForge.Scanner
