import TranscodeForge.Interaction.Pool
import TranscodeForge.Storage.FileTree
import TranscodeForge.Text.Fnmatch
import TranscodeForge.Worker.SourcePath

namespace TranscodeForge.Scratch

open Interaction Storage SourcePath Text

abbrev Tree := FileTree String

-- What a directory is reserved for: the id of a job, or of a fetch. It is one part of a path.
structure JobId where
  text : String
  noSlash : '/' ∉ text.toList
deriving DecidableEq

def diskMarginBytes : Nat := 100 * 1024 * 1024

def reservedDirs : List String := ["state"]

-- `cleanup_orphans(max_age_hours=24)`, in seconds.
def maxAge : Nat := 24 * 3600

inductive Call where
  | freeSpace
  | uuid
  | mkdir (path : Path)
  | scandir
  | isDir (path : Path)
  | modified (path : Path)
  | now
  | rmtree (path : Path)
deriving DecidableEq

abbrev Call.Answer : Call → Type
  | .freeSpace | .now => Nat
  | .uuid => String
  | .mkdir _ | .rmtree _ => Except OSError Unit
  | .scandir => List String
  | .isDir _ => Bool
  | .modified _ => Except OSError Nat

-- `left` says what a removal that fails has not got to.
structure Input where
  fault : Bool := false
  free : Nat := 0
  uuid : String := ""
  modified : Nat := 0
  now : Nat := 0
  left : Path → Bool := fun _ => true

def removeTree (path : Path) (i : Input) (t : Tree) : Tree × Except OSError Unit :=
  match t.node path with
  | none => (t, .error .notFound)
  | some (.file _) => (t, .error .other)
  | some .directory =>
    if i.fault then (t.prune path i.left, .error .other) else (t.rmtree path, .ok ())

def exec (scratchRoot : List String) (_ : Nat) : (c : Call) → Input → Tree → Tree × c.Answer
  | .freeSpace, i, t => (t, i.free)
  | .uuid, i, t => (t, i.uuid)
  | .mkdir path, i, t =>
    if i.fault then (t, .error .other)
    else match t.node path with
      | some (.file _) => (t, .error .fileExists)
      | _ => (t.mkdir path, .ok ())
  | .scandir, i, t => (t, if i.fault then [] else t.children scratchRoot)
  | .isDir path, _, t => (t, t.isDirectory path)
  | .modified path, i, t =>
    (t, if i.fault then .error .other
      else if t.present path then .ok i.modified else .error .notFound)
  | .now, i, t => (t, i.now)
  | .rmtree path, i, t => removeTree path i t

def handler (scratchRoot : List String) : Handler Nat Call Call.Answer Tree Input where
  exec := exec scratchRoot

abbrev Manager := Program Call Call.Answer Failure

def act (c : Call) : Manager c.Answer := .call c .ret

section Operations

variable (scratchRoot : List String)

-- `Path.glob` of one part; two stars in a row are refused there.
def glob (pattern : String) : Manager (List String) :=
  if ['*', '*'] <:+: pattern.toList then
    .raise (.value "Invalid pattern: '**' can only be an entire path component")
  else do
    let names ← act .scandir
    pure (names.filter (fnmatch pattern))

def remove (name : String) : Manager Unit := do
  let _ ← act (.rmtree ⟨scratchRoot, name⟩)
  pure ()

def dirName (jobId : JobId) (uuid : String) : String := jobId.text ++ "_" ++ uuid

def releasePattern (jobId : JobId) : String := jobId.text ++ "_*"

def reserve (jobId : JobId) (sizeBytes : Nat) : Manager Path := do
  let free ← act .freeSpace
  if free < sizeBytes + diskMarginBytes then .raise (.os .other)
  else do
    let uuid ← act .uuid
    let jobDir : Path := ⟨scratchRoot, dirName jobId uuid⟩
    match ← act (.mkdir jobDir) with
    | .ok () => pure jobDir
    | .error e => .raise (.os e)

def release (jobId : JobId) : Manager Unit := do
  let names ← glob (releasePattern jobId)
  Program.each names (remove scratchRoot)

def cleanupOrphans : Manager Unit := do
  let now ← act .now
  let names ← glob "*_*"
  Program.each names fun name => do
    let isDir ← act (.isDir ⟨scratchRoot, name⟩)
    if !isDir || reservedDirs.contains name then pure ()
    else do
      match ← act (.modified ⟨scratchRoot, name⟩) with
      | .error _ => pure ()
      | .ok modified => if modified + maxAge < now then remove scratchRoot name else pure ()

def removeJobDir (name : String) : Manager Unit := do
  let isDir ← act (.isDir ⟨scratchRoot, name⟩)
  if !isDir || reservedDirs.contains name then pure () else remove scratchRoot name

def cleanupOnShutdown : Manager Unit := do
  let names ← glob "*_*"
  Program.each names (removeJobDir scratchRoot)

end Operations

section Patterns

theorem fnmatch_append_star {front name : String} :
    fnmatch (front ++ "_*") name = true ↔ ∃ a b, name.toList = a ++ '_' :: b ∧
      Fnmatch.run (Fnmatch.parse front.toList) a = true := by
  have hclosed : ']' ∉ "_*".toList := by decide
  have hsuffix : Fnmatch.parse "_*".toList = [.one '_', .star] := by decide
  rw [fnmatch, String.toList_append, Fnmatch.parse_append hclosed, hsuffix, Fnmatch.run_append]
  have htail : ∀ l, Fnmatch.run [.one '_', .star] l = true ↔ ∃ b, l = '_' :: b := by
    intro l
    rw [Fnmatch.run_cons (by decide)]
    constructor
    · rintro ⟨c, b, rfl, hc, -⟩
      simp only [Fnmatch.Token.accepts, beq_iff_eq] at hc
      exact ⟨b, by rw [hc]⟩
    · rintro ⟨b, rfl⟩
      exact ⟨'_', b, rfl, rfl, Fnmatch.run_star.mpr ⟨b, [], by simp, rfl⟩⟩
  simp only [htail]
  constructor
  · rintro ⟨a, _, hname, ha, b, rfl⟩
    exact ⟨a, b, hname, ha⟩
  · rintro ⟨a, b, hname, ha⟩
    exact ⟨a, _, hname, ha, b, rfl⟩

-- Whatever the part before the underscore is taken for, the underscore stands for itself.
theorem underscore_of_fnmatch {front name : String} (h : fnmatch (front ++ "_*") name = true) :
    '_' ∈ name.toList := by
  obtain ⟨a, b, hname, -⟩ := fnmatch_append_star.mp h
  simp [hname]

theorem fnmatch_job {name : String} : fnmatch "*_*" name = true ↔ '_' ∈ name.toList := by
  have hpattern : "*_*" = "*" ++ "_*" := by decide
  constructor
  · intro h
    rw [hpattern] at h
    exact underscore_of_fnmatch h
  · intro h
    obtain ⟨a, b, hname⟩ := List.append_of_mem h
    rw [hpattern, fnmatch_append_star]
    refine ⟨a, b, hname, ?_⟩
    have hstar : Fnmatch.parse "*".toList = [.star] := by decide
    rw [hstar, Fnmatch.run_star]
    exact ⟨a, [], by simp, rfl⟩

end Patterns

end TranscodeForge.Scratch
