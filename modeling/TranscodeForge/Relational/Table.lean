import Mathlib.Data.List.Nodup
import Mathlib.Data.Option.Basic

namespace Relational

-- A table with a primary key: no two rows share a key.
@[ext]
structure Table (κ ρ : Type) (key : ρ → κ) where
  rows : List ρ
  unique : (rows.map key).Nodup

variable {κ ρ : Type} {key : ρ → κ}

namespace Table

instance : Membership ρ (Table κ ρ key) := ⟨fun T r => r ∈ T.rows⟩

theorem mem_rows {T : Table κ ρ key} {r : ρ} : r ∈ T.rows ↔ r ∈ T := Iff.rfl

def empty : Table κ ρ key := ⟨[], List.nodup_nil⟩

instance : Inhabited (Table κ ρ key) := ⟨empty⟩

def get? [DecidableEq κ] (T : Table κ ρ key) (k : κ) : Option ρ := T.rows.find? fun r => key r = k

def select (T : Table κ ρ key) (p : ρ → Bool) : List ρ := T.rows.filter p

def rowCount (T : Table κ ρ key) (p : ρ → Bool) : Nat := (T.select p).length

-- UPDATE SET WHERE; the assignment keeps the key.
def update (T : Table κ ρ key) (p : ρ → Bool) (set : ρ → ρ) (hset : ∀ r, key (set r) = key r) :
    Table κ ρ key where
  rows := T.rows.map fun r => if p r then set r else r
  unique := by
    have hkeys : (T.rows.map fun r => if p r then set r else r).map key = T.rows.map key := by
      rw [List.map_map]
      refine List.map_congr_left fun r _ => ?_
      by_cases hp : p r <;> simp [hp, hset]
    rw [hkeys]
    exact T.unique

-- INSERT; a row with a key that is taken is refused.
def insert [DecidableEq κ] (T : Table κ ρ key) (r : ρ) : Table κ ρ key :=
  if h : key r ∈ T.rows.map key then T
  else ⟨T.rows ++ [r], by
    rw [List.map_append, List.nodup_append]
    refine ⟨T.unique, List.nodup_singleton _, ?_⟩
    rintro a ha b hb rfl
    rw [List.map_singleton, List.mem_singleton] at hb
    exact h (hb ▸ ha)⟩

-- INSERT ON CONFLICT DO UPDATE.
def upsert [DecidableEq κ] (T : Table κ ρ key) (r : ρ) (merge : ρ → ρ)
    (hmerge : ∀ r, key (merge r) = key r) : Table κ ρ key :=
  (T.update (fun r' => key r' = key r) merge hmerge).insert r

def delete (T : Table κ ρ key) (p : ρ → Bool) : Table κ ρ key :=
  ⟨T.rows.filter fun r => !p r, (List.filter_sublist.map key).nodup T.unique⟩

@[simp] theorem not_mem_empty (r : ρ) : r ∉ (empty : Table κ ρ key) := List.not_mem_nil

@[simp] theorem mem_select {T : Table κ ρ key} {p : ρ → Bool} {r : ρ} :
    r ∈ T.select p ↔ r ∈ T ∧ p r = true := List.mem_filter

theorem mem_update {T : Table κ ρ key} {p : ρ → Bool} {set : ρ → ρ}
    {hset : ∀ r, key (set r) = key r} {r' : ρ} :
    r' ∈ T.update p set hset ↔ ∃ r ∈ T, (if p r then set r else r) = r' := List.mem_map

theorem mem_delete {T : Table κ ρ key} {p : ρ → Bool} {r : ρ} :
    r ∈ T.delete p ↔ r ∈ T ∧ p r = false := by
  change r ∈ T.rows.filter _ ↔ _
  rw [List.mem_filter]
  simp [mem_rows]

theorem rowCount_eq_zero {T : Table κ ρ key} {p : ρ → Bool} :
    T.rowCount p = 0 ↔ ∀ r ∈ T, p r = false := by
  rw [rowCount, List.length_eq_zero_iff, List.eq_nil_iff_forall_not_mem]
  simp

theorem update_eq_self {T : Table κ ρ key} {p : ρ → Bool} {set : ρ → ρ}
    {hset : ∀ r, key (set r) = key r} (h : ∀ r ∈ T, p r = false) : T.update p set hset = T := by
  refine Table.ext ((List.map_congr_left fun r hr => ?_).trans (List.map_id _))
  rw [h r hr]
  rfl

theorem eq_of_key {T : Table κ ρ key} {r r' : ρ} (hr : r ∈ T) (hr' : r' ∈ T)
    (hk : key r = key r') : r = r' :=
  List.inj_on_of_nodup_map T.unique hr hr' hk

section Keyed

variable [DecidableEq κ]

theorem get?_eq_some {T : Table κ ρ key} {k : κ} {r : ρ} :
    T.get? k = some r ↔ r ∈ T ∧ key r = k := by
  constructor
  · intro h
    exact ⟨List.mem_of_find?_eq_some h, by simpa using List.find?_some h⟩
  · rintro ⟨hr, rfl⟩
    obtain ⟨r', hr'⟩ : ∃ r', T.get? (key r) = some r' := by
      refine Option.isSome_iff_exists.mp (List.find?_isSome.mpr ⟨r, hr, ?_⟩)
      simp
    have hkey : key r' = key r := by simpa using List.find?_some hr'
    rw [hr', eq_of_key (List.mem_of_find?_eq_some hr') hr hkey]

theorem get?_key {T : Table κ ρ key} {k : κ} {r : ρ} (h : T.get? k = some r) : key r = k :=
  (get?_eq_some.mp h).2

theorem get?_mem {T : Table κ ρ key} {k : κ} {r : ρ} (h : T.get? k = some r) : r ∈ T :=
  (get?_eq_some.mp h).1

theorem get?_of_mem {T : Table κ ρ key} {r : ρ} (h : r ∈ T) : T.get? (key r) = some r :=
  get?_eq_some.mpr ⟨h, rfl⟩

theorem get?_eq_none {T : Table κ ρ key} {k : κ} : T.get? k = none ↔ ∀ r ∈ T, key r ≠ k := by
  rw [Option.eq_none_iff_forall_ne_some]
  constructor
  · rintro h r hr rfl
    exact h r (get?_of_mem hr)
  · intro h r hr
    exact h r (get?_mem hr) (get?_key hr)

@[simp] theorem get?_empty (k : κ) : (empty : Table κ ρ key).get? k = none := rfl

theorem get?_update (T : Table κ ρ key) (p : ρ → Bool) (set : ρ → ρ)
    (hset : ∀ r, key (set r) = key r) (k : κ) :
    (T.update p set hset).get? k = (T.get? k).map fun r => if p r then set r else r := by
  cases h : T.get? k with
  | none =>
    rw [get?_eq_none] at h
    rw [Option.map_none, get?_eq_none]
    intro r' hr'
    obtain ⟨r, hr, rfl⟩ := mem_update.mp hr'
    by_cases hp : p r <;> simp [hp, hset, h r hr]
  | some r =>
    rw [Option.map_some, get?_eq_some]
    refine ⟨mem_update.mpr ⟨r, get?_mem h, rfl⟩, ?_⟩
    by_cases hp : p r <;> simp [hp, hset, get?_key h]

theorem insert_of_taken {T : Table κ ρ key} {r r' : ρ} (h : T.get? (key r) = some r') :
    T.insert r = T := by
  rw [insert, dif_pos]
  exact List.mem_map.mpr ⟨r', get?_mem h, get?_key h⟩

theorem mem_insert_of_free {T : Table κ ρ key} {r r' : ρ} (h : T.get? (key r) = none) :
    r' ∈ T.insert r ↔ r' ∈ T ∨ r' = r := by
  have hfree : key r ∉ T.rows.map key := by
    intro hk
    obtain ⟨r₀, hr₀, hkey⟩ := List.mem_map.mp hk
    exact get?_eq_none.mp h r₀ hr₀ hkey
  rw [insert, dif_neg hfree]
  change r' ∈ T.rows ++ [r] ↔ _
  rw [List.mem_append, List.mem_singleton, mem_rows]

theorem get?_insert_of_free {T : Table κ ρ key} {r : ρ} (h : T.get? (key r) = none) (k : κ) :
    (T.insert r).get? k = if key r = k then some r else T.get? k := by
  split
  · next hk =>
    exact get?_eq_some.mpr ⟨(mem_insert_of_free h).mpr (.inr rfl), hk⟩
  · next hk =>
    refine Option.ext fun r' => ?_
    rw [get?_eq_some, get?_eq_some, mem_insert_of_free h]
    constructor
    · rintro ⟨hr' | rfl, hk'⟩
      · exact ⟨hr', hk'⟩
      · exact absurd hk' hk
    · rintro ⟨hr', hk'⟩
      exact ⟨.inl hr', hk'⟩

theorem get?_upsert (T : Table κ ρ key) (r : ρ) (merge : ρ → ρ)
    (hmerge : ∀ r, key (merge r) = key r) (k : κ) :
    (T.upsert r merge hmerge).get? k =
      if key r = k then some (((T.get? k).map merge).getD r) else T.get? k := by
  have hlook := get?_update T (fun r' => key r' = key r) merge hmerge
  cases h : T.get? (key r) with
  | none =>
    have hfree : (T.update (fun r' => key r' = key r) merge hmerge).get? (key r) = none := by
      rw [hlook, h, Option.map_none]
    rw [upsert, get?_insert_of_free hfree, hlook]
    split
    · next hk =>
      rw [← hk, h]
      rfl
    · next hk =>
      cases h' : T.get? k with
      | none => rfl
      | some r' => simp [get?_key h', Ne.symm hk]
  | some r₀ =>
    have htaken : (T.update (fun r' => key r' = key r) merge hmerge).get? (key r) =
        some (merge r₀) := by
      rw [hlook, h]
      simp [get?_key h]
    rw [upsert, insert_of_taken htaken, hlook]
    split
    · next hk =>
      rw [← hk, h]
      simp [get?_key h]
    · next hk =>
      cases h' : T.get? k with
      | none => rfl
      | some r' => simp [get?_key h', Ne.symm hk]

theorem get?_delete (T : Table κ ρ key) (p : ρ → Bool) (k : κ) :
    (T.delete p).get? k = (T.get? k).filter fun r => !p r := by
  refine Option.ext fun r => ?_
  rw [get?_eq_some, mem_delete, Option.filter_eq_some_iff, get?_eq_some]
  simp only [Bool.not_eq_true']
  tauto

-- The row of one key as another table has it.
def copy (src dst : Table κ ρ key) (k : κ) : Table κ ρ key :=
  match src.get? k with
  | none => dst.delete fun r => key r = k
  | some r => (dst.delete fun r' => key r' = k).insert r

theorem get?_copy (src dst : Table κ ρ key) (k k' : κ) :
    (src.copy dst k).get? k' = if k' = k then src.get? k' else dst.get? k' := by
  have hdeleted : ∀ k', (dst.delete fun r => decide (key r = k)).get? k' =
      if k' = k then none else dst.get? k' := by
    intro k'
    rw [get?_delete]
    cases hrow : dst.get? k' with
    | none => simp
    | some r => simp [get?_key hrow, Option.filter]
  rw [copy]
  cases hsrc : src.get? k with
  | none =>
    dsimp only
    rw [hdeleted]
    split
    · next hk => rw [hk, hsrc]
    · rfl
  | some r =>
    have hkey := get?_key hsrc
    have hfree : (dst.delete fun r => decide (key r = k)).get? (key r) = none := by
      rw [hdeleted, if_pos hkey]
    dsimp only
    rw [get?_insert_of_free hfree, hdeleted]
    by_cases hk : k' = k
    · rw [if_pos (hkey.trans hk.symm), if_pos hk, hk, hsrc]
    · rw [if_neg fun h => hk (h.symm.trans hkey), if_neg hk, if_neg hk]

end Keyed

end Table

end Relational
