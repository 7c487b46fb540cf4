import TranscodeForge.Relational.Table

namespace Storage

open Relational

structure Path where
  dir : List String
  name : String
deriving DecidableEq, Repr

def Path.parts (p : Path) : List String := p.dir ++ [p.name]

inductive Node (C : Type) where
  | file (content : C)
  | directory
deriving DecidableEq, Repr

structure Entry (C : Type) where
  path : Path
  node : Node C
deriving DecidableEq, Repr

theorem Entry.path_written {C : Type} (content : C) (e : Entry C) :
    ({ e with node := .file content } : Entry C).path = e.path := rfl

abbrev FileTree (C : Type) := Table Path (Entry C) Entry.path

namespace FileTree

variable {C : Type} (t : FileTree C) (p q : Path)

-- A path that ends in `..` is a directory, and no entry has that name.
def node : Option (Node C) :=
  if p.name = ".." then some .directory else (t.get? p).map Entry.node

def present : Bool := (t.node p).isSome

def isFile : Bool :=
  match t.node p with
  | some (.file _) => true
  | _ => false

def remove : FileTree C := t.delete fun e => e.path = p

-- `os.replace` of a file by a path that is not a directory.
def move (content : C) (src dst : Path) : FileTree C :=
  (t.remove src).upsert ⟨dst, .file content⟩ (fun e => { e with node := .file content }) fun _ => rfl

-- The names in a directory.
def children (dir : List String) : List String :=
  t.rows.filterMap fun e => if e.path.dir = dir then some e.path.name else none

def isDirectory : Bool :=
  match t.node p with
  | some .directory => true
  | _ => false

def mkdir : FileTree C := t.insert ⟨p, .directory⟩

-- `shutil.rmtree`, when it leaves some of the entries behind.
def prune (left : Path → Bool) : FileTree C :=
  t.delete fun e => p.parts.isPrefixOf e.path.parts && !left e.path

def rmtree : FileTree C := t.prune p fun _ => false

variable {t} {p}

theorem mem_children {dir : List String} {name : String} (hname : name ≠ "..") :
    name ∈ t.children dir ↔ (t.node ⟨dir, name⟩).isSome = true := by
  rw [children, List.mem_filterMap, node, if_neg hname, Option.isSome_map]
  constructor
  · rintro ⟨e, he, hdir⟩
    split at hdir
    · next heq =>
      cases hdir
      have hpath : (⟨dir, e.path.name⟩ : Path) = e.path := by rw [← heq]
      rw [hpath, Table.get?_of_mem he]
      rfl
    · cases hdir
  · intro h
    obtain ⟨e, he⟩ := Option.isSome_iff_exists.mp h
    have hpath : e.path = ⟨dir, name⟩ := Table.get?_key he
    exact ⟨e, Table.get?_mem he, by rw [hpath, if_pos rfl]⟩

theorem node_prune {left : Path → Bool} (hq : q.name ≠ "..") :
    (t.prune p left).node q =
      if p.parts.isPrefixOf q.parts && !left q then none else t.node q := by
  rw [node, node, if_neg hq, if_neg hq, prune, Table.get?_delete]
  cases hget : t.get? q with
  | none => simp
  | some e =>
    have hkey : e.path = q := Table.get?_key hget
    rw [Option.map_some, Option.filter_some, hkey]
    cases p.parts.isPrefixOf q.parts && !left q <;> rfl

theorem node_mkdir (hq : q.name ≠ "..") :
    (t.mkdir p).node q =
      if p = q ∧ t.node q = none then some .directory else t.node q := by
  rw [node, node, if_neg hq, if_neg hq, mkdir]
  cases hp : t.get? p with
  | some e =>
    rw [Table.insert_of_taken hp]
    by_cases hpq : p = q
    · subst hpq
      simp [hp]
    · simp [hpq]
  | none =>
    rw [Table.get?_insert_of_free hp]
    by_cases hpq : p = q
    · subst hpq
      simp [hp]
    · simp [hpq]

theorem children_mkdir {dir : List String} (hdir : p.dir ≠ dir) :
    (t.mkdir p).children dir = t.children dir := by
  rw [children, mkdir, Table.insert]
  split
  · rfl
  · simp [children, hdir]

theorem isFile_iff : t.isFile p = true ↔ ∃ content, t.node p = some (.file content) := by
  unfold isFile
  split
  · next content h => simp [h]
  · next h =>
    constructor
    · intro hfalse
      cases hfalse
    · rintro ⟨content, hfile⟩
      exact (h content hfile).elim

theorem isFile_name (h : t.isFile p = true) : p.name ≠ ".." := by
  obtain ⟨content, hfile⟩ := isFile_iff.mp h
  intro hname
  rw [node, if_pos hname] at hfile
  cases hfile

theorem node_remove (hp : p.name ≠ "..") : (t.remove p).node q = if p = q then none else t.node q := by
  unfold node
  by_cases hq : q.name = ".."
  · have hne : p ≠ q := fun h => hp (h ▸ hq)
    rw [if_pos hq, if_pos hq, if_neg hne]
  · rw [if_neg hq, if_neg hq, remove, Table.get?_delete]
    cases hget : t.get? q with
    | none => simp
    | some e =>
      have hkey : e.path = q := Table.get?_key hget
      by_cases hpq : p = q
      · simp [hkey, hpq]
      · simp [hkey, hpq, Ne.symm hpq]

theorem node_move {content : C} {src dst : Path} (hsrc : src.name ≠ "..") (hdst : dst.name ≠ "..") :
    (t.move content src dst).node q =
      if dst = q then some (.file content) else if src = q then none else t.node q := by
  have hremove := node_remove (t := t) q hsrc
  by_cases hq : q.name = ".."
  · have hd : dst ≠ q := fun h => hdst (h ▸ hq)
    have hs : src ≠ q := fun h => hsrc (h ▸ hq)
    rw [if_neg hd, if_neg hs, node, node, if_pos hq, if_pos hq]
  · have hmove : (t.move content src dst).node q =
        if dst = q then some (.file content) else (t.remove src).node q := by
      rw [node, if_neg hq, move, Table.get?_upsert]
      split
      · cases (t.remove src).get? q <;> rfl
      · rw [node, if_neg hq]
    rw [hmove, hremove]

end FileTree

end Storage
