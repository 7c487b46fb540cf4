import TranscodeForge.Relational.Table

namespace Storage

open Relational

structure File (C : Type) where
  name : String
  content : C
deriving DecidableEq, Repr

abbrev Directory (C : Type) := Table String (File C) File.name

namespace Directory

variable {C : Type} (d : Directory C) (name : String) (content : C)

def lookup : Option C := (d.get? name).map File.content

def names : List String := d.rows.map File.name

def put : Directory C :=
  d.upsert ⟨name, content⟩ (fun f => { f with content := content }) fun _ => rfl

def remove : Directory C := d.delete fun f => f.name = name

-- `os.replace`.
def move (src dst : String) : Directory C :=
  match d.lookup src with
  | some content => (d.remove src).put dst content
  | none => d

theorem nodup_names : d.names.Nodup := d.unique

theorem mem_names : name ∈ d.names ↔ ∃ content, d.lookup name = some content := by
  rw [names, List.mem_map]
  constructor
  · rintro ⟨f, hf, rfl⟩
    refine ⟨f.content, ?_⟩
    rw [lookup, Table.get?_of_mem hf, Option.map_some]
  · rintro ⟨content, h⟩
    obtain ⟨f, hf, _⟩ := Option.map_eq_some_iff.mp h
    exact ⟨f, Table.get?_mem hf, Table.get?_key hf⟩

theorem lookup_put (k : String) :
    (d.put name content).lookup k = if name = k then some content else d.lookup k := by
  rw [lookup, put, Table.get?_upsert]
  split
  · cases d.get? k <;> rfl
  · rfl

theorem lookup_remove (k : String) :
    (d.remove name).lookup k = if name = k then none else d.lookup k := by
  rw [lookup, remove, Table.get?_delete, lookup]
  cases h : d.get? k with
  | none => simp
  | some f =>
    have hkey : f.name = k := Table.get?_key h
    by_cases hk : name = k
    · simp [hkey, hk]
    · simp [hkey, hk, Ne.symm hk]

theorem lookup_move {src dst : String} {content : C} (h : d.lookup src = some content)
    (k : String) :
    (d.move src dst).lookup k =
      if dst = k then some content else if src = k then none else d.lookup k := by
  rw [move, h]
  simp only [lookup_put, lookup_remove]

end Directory

end Storage
