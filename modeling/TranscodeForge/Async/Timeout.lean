namespace Async

-- `asyncio.Timeout` after `__aenter__`.
inductive Standing where
  | entered
  | expiring
  | expired
  | exited
deriving DecidableEq, Repr

-- `base` counts the cancellations that were asked of the task when the block was entered.
structure Timeout where
  standing : Standing
  due : Nat
  base : Nat
deriving DecidableEq, Repr

namespace Timeout

variable {ε α : Type}

def enter (due base : Nat) : Timeout := ⟨.entered, due, base⟩

-- What raises a `RuntimeError` leaves it as it is.
def reschedule (due : Nat) (t : Timeout) : Timeout :=
  if t.standing = .entered then { t with due := due } else t

-- The timer's callback, when its time has come.
def expire (now : Nat) (t : Timeout) : Option Timeout :=
  if t.standing = .entered ∧ t.due ≤ now then some { t with standing := .expiring } else none

-- `__aexit__` takes its own cancellation back; unless there are others, it is a timeout.
def exit [DecidableEq ε] (cancelled timeout : ε) (requests : Nat) (o : Except ε α) (t : Timeout) :
    Timeout × Nat × Except ε α :=
  match t.standing with
  | .expiring => ({ t with standing := .expired }, requests - 1, match o with
      | .ok a => .ok a
      | .error e => if e = cancelled ∧ requests - 1 ≤ t.base then .error timeout else .error e)
  | _ => ({ t with standing := .exited }, requests, o)

variable {t t' : Timeout} {now due requests : Nat}

theorem expire_some (h : t.expire now = some t') :
    t.standing = .entered ∧ t.due ≤ now ∧ t' = { t with standing := .expiring } := by
  unfold expire at h
  split at h
  · next hdue =>
    cases h
    exact ⟨hdue.1, hdue.2, rfl⟩
  · cases h

@[simp] theorem standing_reschedule : (t.reschedule due).standing = t.standing := by
  unfold reschedule
  split <;> rfl

theorem due_reschedule (h : t.standing = .entered) : (t.reschedule due).due = due := by
  rw [reschedule, if_pos h]

section Exit

variable [DecidableEq ε] (cancelled timeout : ε) (requests : Nat) (o : Except ε α) (t : Timeout)

theorem exit_not_entered : (t.exit cancelled timeout requests o).1.standing ≠ .entered := by
  cases hstanding : t.standing <;> simp [exit, hstanding]

theorem exit_entered (h : t.standing = .entered) :
    (t.exit cancelled timeout requests o).1.standing = .exited := by
  simp [exit, h]

-- A block that was left without an exception stays so; a cancellation may become a timeout.
theorem exit_outcome :
    (t.exit cancelled timeout requests o).2.2 = o ∨
      o = .error cancelled ∧ (t.exit cancelled timeout requests o).2.2 = .error timeout := by
  cases hstanding : t.standing with
  | expiring =>
    cases o with
    | ok a => exact .inl (by simp [exit, hstanding])
    | error e =>
      by_cases hcancel : e = cancelled ∧ requests - 1 ≤ t.base
      · exact .inr ⟨by rw [hcancel.1], by simp [exit, hstanding, hcancel]⟩
      · exact .inl (by simp only [exit, hstanding, if_neg hcancel])
  | _ => exact .inl (by simp [exit, hstanding])

end Exit

end Timeout

end Async
