import TranscodeForge.Interaction.Logic

namespace Database

open Interaction

structure Dialect (σ Q : Type) (Res : Q → Type) where
  exec : σ → (q : Q) → σ × Res q
  writes : Q → Bool
  reads : ∀ s q, writes q = false → (exec s q).1 = s

-- A write that has been executed and not yet committed or rolled back.
structure Write (Q : Type) where
  serial : Nat
  block : Option Nat
  thread : Nat
  statement : Q

-- One connection for every thread: a commit makes durable whatever is pending, a rollback drops it.
structure Connection (σ Q : Type) where
  durable : σ
  pending : List (Write Q) := []
  issued : Nat := 0
  blocks : Nat := 0

inductive Call (Q : Type) where
  | enter
  | execute (block : Option Nat) (q : Q)
  | commit (block : Option Nat)
  | rollback (block : Nat)

inductive Fault where
  | failed
  | cancelled
deriving DecidableEq

-- How an awaited call ends; one that is interrupted has taken effect.
inductive Delivery where
  | done
  | failed
  | interrupted
deriving DecidableEq

variable {σ Q : Type} {Res : Q → Type}

abbrev Call.Answer (Res : Q → Type) : Call Q → Type
  | .enter => Nat
  | .execute _ q => Except Fault (Res q)
  | .commit _ => Except Fault Unit
  | .rollback _ => Except Fault Unit

def Call.block? : Call Q → Option Nat
  | .enter => none
  | .execute block _ => block
  | .commit block => block
  | .rollback block => some block

def Delivery.answer {α : Type} (a : α) : Delivery → Except Fault α
  | .done => .ok a
  | .failed => .error .failed
  | .interrupted => .error .cancelled

namespace Connection

variable (L : Dialect σ Q Res) (c : Connection σ Q)

def replay (s : σ) (ws : List (Write Q)) : σ := ws.foldl (fun s w => (L.exec s w.statement).1) s

def working : σ := replay L c.durable c.pending

def executed (t : Nat) (block : Option Nat) (q : Q) : Connection σ Q :=
  if L.writes q then
    { c with pending := c.pending ++ [⟨c.issued, block, t, q⟩], issued := c.issued + 1 }
  else c

def committed : Connection σ Q := { c with durable := c.working L, pending := [] }

def rolledBack : Connection σ Q := { c with pending := [] }

def entered : Connection σ Q := { c with blocks := c.blocks + 1 }

def exec (t : Nat) (d : Delivery) : (op : Call Q) → Connection σ Q × op.Answer Res
  | .enter => (c.entered, c.blocks)
  | .execute block q =>
    (if d = .failed then c else c.executed L t block q, d.answer (L.exec (c.working L) q).2)
  | .commit _ => (if d = .failed then c else c.committed L, d.answer ())
  | .rollback _ => (if d = .failed then c else c.rolledBack, d.answer ())

@[simp] theorem working_executed (t : Nat) (block : Option Nat) (q : Q) :
    (c.executed L t block q).working L = (L.exec (c.working L) q).1 := by
  rw [executed]
  cases hq : L.writes q with
  | true =>
    rw [if_pos rfl]
    exact List.foldl_append
  | false =>
    rw [if_neg Bool.false_ne_true]
    exact (L.reads _ q hq).symm

@[simp] theorem working_committed : (c.committed L).working L = c.working L := rfl

@[simp] theorem working_rolledBack : c.rolledBack.working L = c.durable := rfl

@[simp] theorem durable_executed (t : Nat) (block : Option Nat) (q : Q) :
    (c.executed L t block q).durable = c.durable := by
  rw [executed]
  split <;> rfl

@[simp] theorem durable_committed : (c.committed L).durable = c.working L := rfl

theorem pending_executed (t : Nat) (block : Option Nat) (q : Q) {w : Write Q}
    (h : w ∈ c.pending) : w ∈ (c.executed L t block q).pending := by
  rw [executed]
  split
  · exact List.mem_append_left _ h
  · exact h

-- What is seen is durable already.
def Settled (P : σ → Prop) : Prop := P (c.working L) → P c.durable

theorem settled_committed (P : σ → Prop) : (c.committed L).Settled L P := id

theorem settled_rolledBack (P : σ → Prop) : c.rolledBack.Settled L P := id

theorem Settled.executed {P : σ → Prop} {c : Connection σ Q} (h : c.Settled L P) (t : Nat)
    (block : Option Nat) {q : Q} (hq : P (L.exec (c.working L) q).1 → P (c.working L)) :
    (c.executed L t block q).Settled L P := by
  intro hseen
  rw [working_executed] at hseen
  rw [durable_executed]
  exact h (hq hseen)

end Connection

def connection (L : Dialect σ Q Res) :
    Handler Nat (Call Q) (Call.Answer Res) (Connection σ Q) Delivery where
  exec t op d c := c.exec L t d op

end Database
