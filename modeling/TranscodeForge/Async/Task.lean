namespace Async

-- A coroutine as its task sees it: suspended at an await, or over.
inductive Phase (Q ε α : Type) where
  | suspended (q : Q)
  | done (o : Except ε α)

-- `waiter` is the state of the future the task waits for: `none` while it is pending.
structure Task (Q ε α : Type) where
  phase : Phase Q ε α
  waiter : Option (Except ε Unit)
  mustCancel : Bool

namespace Task

variable {Q ε α : Type} (cancelled : ε)

-- A task that has just come to an await, with a cancellation pending or not.
def arrive (phase : Phase Q ε α) (pending : Bool) : Task Q ε α :=
  ⟨phase, if pending then some (.error cancelled) else none, false⟩

-- A future that is not pending any more cannot be cancelled; the next step then raises.
def cancel (t : Task Q ε α) : Task Q ε α :=
  match t.phase, t.waiter with
  | .done _, _ => t
  | .suspended _, none => { t with waiter := some (.error cancelled) }
  | .suspended _, some _ => { t with mustCancel := true }

def resolve (o : Except ε Unit) (t : Task Q ε α) : Option (Task Q ε α) :=
  match t.phase, t.waiter with
  | .suspended _, none => some { t with waiter := some o }
  | _, _ => none

def wake (resume : Q → Except ε Unit → Phase Q ε α) (t : Task Q ε α) : Option (Task Q ε α) :=
  match t.phase, t.waiter with
  | .suspended q, some signal =>
    some ⟨resume q (if t.mustCancel then .error cancelled else signal), none, false⟩
  | _, _ => none

-- What the next step of the task resumes the coroutine with.
def signal (t : Task Q ε α) : Option (Q × Except ε Unit) :=
  match t.phase, t.waiter with
  | .suspended q, some signal => some (q, if t.mustCancel then .error cancelled else signal)
  | _, _ => none

-- The next step raises the cancellation.
def Doomed (t : Task Q ε α) : Prop :=
  t.waiter = some (.error cancelled) ∨ t.waiter.isSome ∧ t.mustCancel = true

variable {cancelled} {t t' : Task Q ε α}

theorem resolve_some {o : Except ε Unit} (h : t.resolve o = some t') :
    ∃ q, t.phase = .suspended q ∧ t.waiter = none ∧ t' = { t with waiter := some o } := by
  unfold resolve at h
  split at h
  · next q hphase hwaiter =>
    cases h
    exact ⟨q, hphase, hwaiter, rfl⟩
  · cases h

theorem wake_some {resume : Q → Except ε Unit → Phase Q ε α} (h : t.wake cancelled resume = some t') :
    ∃ q signal, t.phase = .suspended q ∧ t.waiter = some signal ∧
      t' = ⟨resume q (if t.mustCancel then .error cancelled else signal), none, false⟩ := by
  unfold wake at h
  split at h
  · next q signal hphase hwaiter =>
    cases h
    exact ⟨q, signal, hphase, hwaiter, rfl⟩
  · cases h

theorem signal_some {q : Q} {x : Except ε Unit} (h : t.signal cancelled = some (q, x)) :
    t.phase = .suspended q ∧ ∃ y, t.waiter = some y ∧
      x = if t.mustCancel then .error cancelled else y := by
  unfold signal at h
  split at h
  · next q' y hphase hwaiter =>
    cases h
    exact ⟨hphase, y, hwaiter, rfl⟩
  · cases h

theorem Doomed.signal {q : Q} {x : Except ε Unit} (h : t.Doomed cancelled)
    (hsignal : t.signal cancelled = some (q, x)) : x = .error cancelled := by
  obtain ⟨-, y, hwaiter, rfl⟩ := signal_some hsignal
  rcases h with hcancelled | ⟨-, hmust⟩
  · rw [hwaiter] at hcancelled
    cases hcancelled
    exact ite_self _
  · rw [hmust]
    rfl

theorem Doomed.ready {q : Q} (h : t.Doomed cancelled) (hphase : t.phase = .suspended q) :
    t.signal cancelled ≠ none := by
  unfold Task.signal
  rcases h with hcancelled | ⟨hwaiter, -⟩
  · simp [hphase, hcancelled]
  · obtain ⟨y, hy⟩ := Option.isSome_iff_exists.mp hwaiter
    simp [hphase, hy]

theorem Doomed.resolve {o : Except ε Unit} (h : t.Doomed cancelled) : t.resolve o = none := by
  unfold Task.resolve
  rcases h with hcancelled | ⟨hwaiter, -⟩
  · rw [hcancelled]
    cases t.phase <;> rfl
  · obtain ⟨y, hy⟩ := Option.isSome_iff_exists.mp hwaiter
    rw [hy]
    cases t.phase <;> rfl

@[simp] theorem phase_cancel : (t.cancel cancelled).phase = t.phase := by
  unfold cancel
  split <;> simp_all

theorem waiter_cancel {x : Except ε Unit} (h : (t.cancel cancelled).waiter = some x) :
    t.waiter = some x ∨ x = .error cancelled := by
  unfold cancel at h
  split at h
  · exact .inl h
  · cases h
    exact .inr rfl
  · exact .inl h

-- A cancellation is never lost while the task waits.
theorem cancel_doomed {q : Q} (hphase : t.phase = .suspended q) : (t.cancel cancelled).Doomed cancelled := by
  unfold cancel
  cases hwaiter : t.waiter with
  | none => simp [Doomed, hphase]
  | some y => simp [Doomed, hphase]

theorem Doomed.cancel (h : t.Doomed cancelled) : (t.cancel cancelled).Doomed cancelled := by
  cases hphase : t.phase with
  | suspended q => exact cancel_doomed hphase
  | done o =>
    have hsame : t.cancel cancelled = t := by
      unfold Task.cancel
      simp [hphase]
    rw [hsame]
    exact h

end Task

end Async
