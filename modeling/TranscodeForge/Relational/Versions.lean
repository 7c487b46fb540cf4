import Mathlib.Logic.Function.Basic
import TranscodeForge.Relational.Table

namespace Relational

-- A database as a family of rows, each of which can be taken over from another state of it.
structure Rows (σ ρ : Type) (V : ρ → Type) where
  row : σ → (r : ρ) → V r
  copy : σ → σ → ρ → σ
  row_copy : ∀ src dst r r', [Decidable (r' = r)] →
    row (copy src dst r) r' = if r' = r then row src r' else row dst r'

-- One committed state, and for each transaction a working state whose rows count where the
-- transaction has them locked.
structure Versions (σ ρ τ : Type) where
  committed : σ
  work : τ → σ
  locks : List (ρ × τ) := []

variable {σ ρ τ : Type} {V : ρ → Type}

namespace Rows

variable [DecidableEq ρ] (D : Rows σ ρ V)

def copyRows (src : σ) (rows : List ρ) (dst : σ) : σ := rows.foldl (D.copy src) dst

theorem row_copyRows (src : σ) (rows : List ρ) (dst : σ) (r : ρ) :
    D.row (D.copyRows src rows dst) r = if r ∈ rows then D.row src r else D.row dst r := by
  induction rows generalizing dst with
  | nil => simp [copyRows]
  | cons x xs ih =>
    have hstep := ih (D.copy src dst x)
    rw [D.row_copy] at hstep
    refine hstep.trans ?_
    by_cases hxs : r ∈ xs
    · simp [hxs]
    · by_cases hx : r = x <;> simp [hx, hxs]

end Rows

namespace Versions

section Locks

variable (s : Versions σ ρ τ) (t : τ) (r : ρ)

def Holds : Prop := (r, t) ∈ s.locks

-- A row is locked by one transaction at most.
def Exclusive : Prop := ∀ r t t', s.Holds t r → s.Holds t' r → t = t'

variable [DecidableEq τ]

def held : List ρ := s.locks.filterMap fun l => if l.2 = t then some l.1 else none

def setWork (w : σ) : Versions σ ρ τ := { s with work := Function.update s.work t w }

def release : Versions σ ρ τ := { s with locks := s.locks.filter fun l => l.2 ≠ t }

variable {s t r} {t' : τ}

theorem mem_held : r ∈ s.held t ↔ s.Holds t r := by
  simp [held, Holds]

@[simp] theorem setWork_committed (w : σ) : (s.setWork t w).committed = s.committed := rfl

@[simp] theorem setWork_work (w : σ) : (s.setWork t w).work t = w := Function.update_self ..

theorem setWork_other (w : σ) (h : t' ≠ t) : (s.setWork t w).work t' = s.work t' :=
  Function.update_of_ne h ..

@[simp] theorem holds_setWork (w : σ) : (s.setWork t w).Holds t' r ↔ s.Holds t' r := Iff.rfl

theorem holds_release : (s.release t).Holds t' r ↔ s.Holds t' r ∧ t' ≠ t := by
  simp [Holds, release]

theorem Exclusive.release (hs : s.Exclusive) : (s.release t).Exclusive :=
  fun r t₁ t₂ h₁ h₂ => hs r t₁ t₂ (holds_release.mp h₁).1 (holds_release.mp h₂).1

end Locks

section Transactions

variable [DecidableEq ρ] [DecidableEq τ]
variable (D : Rows σ ρ V) (s : Versions σ ρ τ) (t : τ) (r : ρ)

instance : Decidable (s.Holds t r) := inferInstanceAs (Decidable ((r, t) ∈ s.locks))

-- No other transaction has the row locked.
def isFree : Bool := s.locks.all fun l => l.1 ≠ r || l.2 = t

-- What a statement of the transaction sees: what is committed, and its own rows.
def view : σ := D.copyRows (s.work t) (s.held t) s.committed

-- The row as it is committed once its lock has been granted.
def lock : Versions σ ρ τ :=
  if s.Holds t r then s
  else { s.setWork t (D.copy s.committed (s.work t) r) with locks := (r, t) :: s.locks }

def commit : Versions σ ρ τ := { s.release t with committed := s.view D t }

variable {D s t r} {t' : τ} {r' : ρ}

theorem isFree_iff : s.isFree t r = true ↔ ∀ t', s.Holds t' r → t' = t := by
  simp only [isFree, Holds, List.all_eq_true, Bool.or_eq_true, decide_eq_true_eq]
  constructor
  · intro h t' ht'
    rcases h _ ht' with hne | heq
    · exact absurd rfl hne
    · exact heq
  · rintro h ⟨r', t'⟩ hl
    by_cases hr : r' = r
    · subst hr
      exact .inr (h t' hl)
    · exact .inl hr

theorem row_view (r : ρ) :
    D.row (s.view D t) r = if s.Holds t r then D.row (s.work t) r else D.row s.committed r := by
  rw [view, Rows.row_copyRows]
  simp only [mem_held]

@[simp] theorem lock_committed : (s.lock D t r).committed = s.committed := by
  rw [lock]
  split <;> rfl

theorem lock_other (h : t' ≠ t) : (s.lock D t r).work t' = s.work t' := by
  rw [lock]
  split
  · rfl
  · exact setWork_other _ h

theorem holds_lock : (s.lock D t r).Holds t' r' ↔ s.Holds t' r' ∨ t' = t ∧ r' = r := by
  rw [lock]
  split
  · next h =>
    constructor
    · exact .inl
    · rintro (h' | ⟨rfl, rfl⟩)
      · exact h'
      · exact h
  · next h =>
    simp only [Holds, List.mem_cons, Prod.mk.injEq]
    tauto

theorem row_lock (r' : ρ) :
    D.row ((s.lock D t r).work t) r' =
      if r' = r ∧ ¬s.Holds t r then D.row s.committed r' else D.row (s.work t) r' := by
  rw [lock]
  by_cases h : s.Holds t r
  · rw [if_pos h, if_neg fun hr => hr.2 h]
  · rw [if_neg h]
    change D.row (Function.update s.work t _ t) r' = _
    rw [Function.update_self, D.row_copy]
    simp [h]

theorem Exclusive.lock (hs : s.Exclusive) (hfree : s.isFree t r = true) :
    (s.lock D t r).Exclusive := by
  have hr := isFree_iff.mp hfree
  intro r' t₁ t₂ h₁ h₂
  rcases holds_lock.mp h₁ with h₁ | ⟨ht₁, hr₁⟩ <;> rcases holds_lock.mp h₂ with h₂ | ⟨ht₂, hr₂⟩
  · exact hs r' t₁ t₂ h₁ h₂
  · rw [ht₂]
    exact hr t₁ (hr₂ ▸ h₁)
  · rw [ht₁]
    exact (hr t₂ (hr₁ ▸ h₂)).symm
  · rw [ht₁, ht₂]

omit [DecidableEq ρ] in
theorem holds_commit : (s.commit D t).Holds t' r ↔ s.Holds t' r ∧ t' ≠ t := holds_release

omit [DecidableEq ρ] in
theorem Exclusive.commit (hs : s.Exclusive) : (s.commit D t).Exclusive := hs.release

theorem row_commit (r : ρ) :
    D.row (s.commit D t).committed r =
      if s.Holds t r then D.row (s.work t) r else D.row s.committed r := row_view r

-- What one transaction has locked, no other one's commit changes.
theorem Exclusive.row_commit_other (hs : s.Exclusive) (h : t' ≠ t) (hr : s.Holds t' r) :
    D.row (s.commit D t).committed r = D.row s.committed r := by
  rw [row_commit, if_neg fun hr' => h (hs r t' t hr hr')]

end Transactions

end Versions

end Relational
