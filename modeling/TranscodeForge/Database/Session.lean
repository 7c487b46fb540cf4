import Mathlib.Data.Option.Basic

namespace Database

-- One connection: what is durable, and what the connection itself sees, which is the same
-- unless a transaction is open.
@[ext]
structure Session (δ : Type) where
  durable : δ
  working : δ
  inTransaction : Bool
  idle : inTransaction = false → working = durable

namespace Session

variable {δ : Type} (s : Session δ)

def opened (d : δ) : Session δ := ⟨d, d, false, fun _ => rfl⟩

def begin : Session δ := ⟨s.durable, s.working, true, nofun⟩

def commit : Session δ := opened s.working

def rollback : Session δ := opened s.durable

-- A write outside a transaction is its own transaction.
def write (x : δ) : Session δ := if s.inTransaction then ⟨s.durable, x, true, nofun⟩ else opened x

@[simp] theorem durable_opened (d : δ) : (opened d).durable = d := rfl

@[simp] theorem working_opened (d : δ) : (opened d).working = d := rfl

@[simp] theorem inTransaction_opened (d : δ) : (opened d).inTransaction = false := rfl

@[simp] theorem durable_begin : s.begin.durable = s.durable := rfl

@[simp] theorem working_begin : s.begin.working = s.working := rfl

@[simp] theorem inTransaction_begin : s.begin.inTransaction = true := rfl

@[simp] theorem durable_commit : s.commit.durable = s.working := rfl

@[simp] theorem working_commit : s.commit.working = s.working := rfl

@[simp] theorem durable_rollback : s.rollback.durable = s.durable := rfl

@[simp] theorem working_write (x : δ) : (s.write x).working = x := by
  unfold write
  split <;> rfl

@[simp] theorem inTransaction_write (x : δ) : (s.write x).inTransaction = s.inTransaction := by
  unfold write
  cases s.inTransaction <;> rfl

theorem durable_write (x : δ) :
    (s.write x).durable = if s.inTransaction then s.durable else x := by
  unfold write
  split <;> rfl

theorem durable_write_inside {s : Session δ} (h : s.inTransaction = true) (x : δ) :
    (s.write x).durable = s.durable := by
  rw [durable_write, if_pos h]

end Session

end Database
