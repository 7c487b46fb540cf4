import TranscodeForge.Interaction.Program

namespace Interaction

namespace Program

variable {O : Type} {Res : O → Type} {ε α β : Type} (answer : (op : O) → Res op)

-- How a program ends when every call is answered by a function of the call.
def result : Program O Res ε α → Except ε α
  | .ret a => .ok a
  | .raise e => .error e
  | .call op k => (k (answer op)).result

-- The calls it makes on the way.
def asked : Program O Res ε α → List O
  | .ret _ => []
  | .raise _ => []
  | .call op k => op :: (k (answer op)).asked

variable {answer}

@[simp] theorem result_ret (a : α) : (ret a : Program O Res ε α).result answer = .ok a := rfl

@[simp] theorem result_raise (e : ε) : (raise e : Program O Res ε α).result answer = .error e := rfl

@[simp] theorem result_call (op : O) (k : Res op → Program O Res ε α) :
    (call op k).result answer = (k (answer op)).result answer := rfl

@[simp] theorem asked_ret (a : α) : (ret a : Program O Res ε α).asked answer = [] := rfl

@[simp] theorem asked_raise (e : ε) : (raise e : Program O Res ε α).asked answer = [] := rfl

@[simp] theorem asked_call (op : O) (k : Res op → Program O Res ε α) :
    (call op k).asked answer = op :: (k (answer op)).asked answer := rfl

variable {p : Program O Res ε α} {f : α → Program O Res ε β} {a : α} {e : ε}

theorem result_bind_ok (h : p.result answer = .ok a) :
    (p.bind f).result answer = (f a).result answer := by
  induction p with
  | ret b =>
    cases h
    rfl
  | raise e => cases h
  | call op k ih => exact ih _ h

theorem result_bind_error (h : p.result answer = .error e) :
    (p.bind f).result answer = .error e := by
  induction p with
  | ret b => cases h
  | raise e' =>
    cases h
    rfl
  | call op k ih => exact ih _ h

theorem result_bind_inv {b : β} (h : (p.bind f).result answer = .ok b) :
    ∃ a, p.result answer = .ok a ∧ (f a).result answer = .ok b := by
  cases hp : p.result answer with
  | ok a => exact ⟨a, rfl, (result_bind_ok hp).symm.trans h⟩
  | error e => cases (result_bind_error hp).symm.trans h

theorem result_bind : (p.bind f).result answer =
    match p.result answer with
    | .ok a => (f a).result answer
    | .error e => .error e := by
  cases hp : p.result answer with
  | ok a => exact result_bind_ok hp
  | error e => exact result_bind_error hp

theorem result_attempt {ε' : Type} (p : Program O Res ε α) :
    (p.attempt : Program O Res ε' _).result answer = .ok (p.result answer) := by
  induction p with
  | ret a => rfl
  | raise e => rfl
  | call op k ih => exact ih _

theorem result_rescue {ε' : Type} (p : Program O Res ε α) (handler : ε → Program O Res ε' α) :
    (p.rescue handler).result answer =
      match p.result answer with
      | .ok a => .ok a
      | .error e => (handler e).result answer := by
  rw [rescue, result_bind_ok (result_attempt p)]
  cases p.result answer <;> rfl

@[simp] theorem result_ofExcept (x : Except ε α) :
    (ofExcept x : Program O Res ε α).result answer = x := by
  cases x <;> rfl

@[simp] theorem asked_ofExcept (x : Except ε α) :
    (ofExcept x : Program O Res ε α).asked answer = [] := by
  cases x <;> rfl

theorem asked_bind : (p.bind f).asked answer = p.asked answer ++
    match p.result answer with
    | .ok a => (f a).asked answer
    | .error _ => [] := by
  induction p with
  | ret a => rfl
  | raise e => rfl
  | call op k ih => exact congrArg (op :: ·) (ih _)

theorem asked_attempt {ε' : Type} (p : Program O Res ε α) :
    (p.attempt : Program O Res ε' _).asked answer = p.asked answer := by
  induction p with
  | ret a => rfl
  | raise e => rfl
  | call op k ih => exact congrArg (op :: ·) (ih _)

theorem asked_rescue {ε' : Type} {handler : ε → Program O Res ε' α} (p : Program O Res ε α)
    (h : ∀ e, (handler e).asked answer = []) :
    (p.rescue handler).asked answer = p.asked answer := by
  rw [rescue, asked_bind, asked_attempt, result_attempt]
  cases p.result answer with
  | ok a => exact List.append_nil _
  | error e => simp [h e]

theorem asked_bind_ok (h : p.result answer = .ok a) :
    (p.bind f).asked answer = p.asked answer ++ (f a).asked answer := by
  induction p with
  | ret b =>
    cases h
    rfl
  | raise e => cases h
  | call op k ih => exact congrArg (op :: ·) (ih _ h)

theorem asked_calls {A : O → Prop} (h : p.Calls A) : ∀ op ∈ p.asked answer, A op := by
  induction p with
  | ret a => simp
  | raise e => simp
  | call op k ih =>
    intro op' hop'
    rcases List.mem_cons.mp hop' with rfl | hop'
    · exact h.1
    · exact ih _ (h.2 _) op' hop'

end Program

end Interaction
