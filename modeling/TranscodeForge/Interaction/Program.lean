import Mathlib.Logic.Function.Basic

namespace Interaction

inductive Program (O : Type) (Res : O → Type) (ε α : Type) where
  | ret (a : α)
  | raise (e : ε)
  | call (op : O) (k : Res op → Program O Res ε α)

namespace Program

variable {O : Type} {Res : O → Type} {ε ε' α β γ : Type}

def bind : Program O Res ε α → (α → Program O Res ε β) → Program O Res ε β
  | .ret a, f => f a
  | .raise e, _ => .raise e
  | .call op k, f => .call op (fun r => (k r).bind f)

instance : Monad (Program O Res ε) where
  pure := .ret
  bind := bind

def perform (op : O) : Program O Res ε (Res op) := .call op .ret

def attempt : Program O Res ε α → Program O Res ε' (Except ε α)
  | .ret a => .ret (.ok a)
  | .raise e => .ret (.error e)
  | .call op k => .call op (fun r => (k r).attempt)

def ofExcept : Except ε α → Program O Res ε α
  | .ok a => .ret a
  | .error e => .raise e

def rescue (p : Program O Res ε α) (handler : ε → Program O Res ε' α) :
    Program O Res ε' α :=
  p.attempt.bind fun
    | .ok a => .ret a
    | .error e => handler e

def each (xs : List β) (f : β → Program O Res ε Unit) : Program O Res ε Unit :=
  match xs with
  | [] => .ret ()
  | x :: xs => (f x).bind fun _ => each xs f

def outcome : Program O Res ε α → Option (Except ε α)
  | .ret a => some (.ok a)
  | .raise e => some (.error e)
  | .call _ _ => none

@[simp] theorem ret_bind (a : α) (f : α → Program O Res ε β) : (ret a).bind f = f a := rfl

@[simp] theorem raise_bind (e : ε) (f : α → Program O Res ε β) :
    (raise e : Program O Res ε α).bind f = raise e := rfl

@[simp] theorem call_bind (op : O) (k : Res op → Program O Res ε α)
    (f : α → Program O Res ε β) :
    (call op k).bind f = call op fun r => (k r).bind f := rfl

@[simp] theorem bind_eq (p : Program O Res ε α) (f : α → Program O Res ε β) :
    p >>= f = p.bind f := rfl

@[simp] theorem pure_eq (a : α) : (pure a : Program O Res ε α) = ret a := rfl

@[simp] theorem perform_bind (op : O) (f : Res op → Program O Res ε β) :
    (perform op).bind f = call op f := rfl

theorem bind_assoc (p : Program O Res ε α) (f : α → Program O Res ε β)
    (g : β → Program O Res ε γ) :
    (p.bind f).bind g = p.bind fun a => (f a).bind g := by
  induction p with
  | ret a => rfl
  | raise e => rfl
  | call op k ih => exact congrArg (call op) (funext fun r => ih r)

-- Which calls a program can ever make, whatever the answers to the earlier ones are.
def Calls (A : O → Prop) : Program O Res ε α → Prop
  | .ret _ => True
  | .raise _ => True
  | .call op k => A op ∧ ∀ r, (k r).Calls A

section Calls

variable {A B : O → Prop}

@[simp] theorem calls_ret (a : α) : (ret a : Program O Res ε α).Calls A := trivial

@[simp] theorem calls_raise (e : ε) : (raise e : Program O Res ε α).Calls A := trivial

@[simp] theorem calls_call (op : O) (k : Res op → Program O Res ε α) :
    (call op k).Calls A ↔ A op ∧ ∀ r, (k r).Calls A := Iff.rfl

@[simp] theorem calls_perform (op : O) :
    (perform op : Program O Res ε (Res op)).Calls A ↔ A op := by
  simp [perform]

theorem Calls.mono {p : Program O Res ε α} (h : p.Calls A) (hAB : ∀ op, A op → B op) :
    p.Calls B := by
  induction p with
  | ret a => trivial
  | raise e => trivial
  | call op k ih => exact ⟨hAB op h.1, fun r => ih r (h.2 r)⟩

theorem calls_true (p : Program O Res ε α) : p.Calls fun _ => True := by
  induction p with
  | ret a => trivial
  | raise e => trivial
  | call op k ih => exact ⟨trivial, ih⟩

theorem Calls.bind {p : Program O Res ε α} {f : α → Program O Res ε β}
    (hp : p.Calls A) (hf : ∀ a, (f a).Calls A) : (p.bind f).Calls A := by
  induction p with
  | ret a => exact hf a
  | raise e => trivial
  | call op k ih => exact ⟨hp.1, fun r => ih r (hp.2 r)⟩

theorem Calls.attempt {p : Program O Res ε α} (hp : p.Calls A) :
    (p.attempt : Program O Res ε' _).Calls A := by
  induction p with
  | ret a => trivial
  | raise e => trivial
  | call op k ih => exact ⟨hp.1, fun r => ih r (hp.2 r)⟩

theorem Calls.ofExcept (x : Except ε α) : (ofExcept x : Program O Res ε α).Calls A := by
  cases x <;> trivial

theorem Calls.rescue {p : Program O Res ε α} {handler : ε → Program O Res ε' α}
    (hp : p.Calls A) (hh : ∀ e, (handler e).Calls A) : (p.rescue handler).Calls A := by
  refine hp.attempt.bind fun x => ?_
  cases x with
  | ok a => trivial
  | error e => exact hh e

theorem Calls.each {xs : List β} {f : β → Program O Res ε Unit}
    (hf : ∀ x ∈ xs, (f x).Calls A) : (each xs f).Calls A := by
  induction xs with
  | nil => trivial
  | cons x xs ih =>
    exact (hf x (by simp)).bind fun _ => ih fun y hy => hf y (by simp [hy])

end Calls

section Expand

variable {O' : Type} {Res' : O' → Type} {A : O → Prop} {B : O' → Prop}

-- Every call replaced by the program that carries it out.
def expand (f : (op : O) → Program O' Res' ε (Res op)) :
    Program O Res ε α → Program O' Res' ε α
  | .ret a => .ret a
  | .raise e => .raise e
  | .call op k => (f op).bind fun a => (k a).expand f

theorem expand_bind (f : (op : O) → Program O' Res' ε (Res op)) (p : Program O Res ε α)
    (g : α → Program O Res ε β) : (p.bind g).expand f = (p.expand f).bind fun a => (g a).expand f := by
  induction p with
  | ret a => rfl
  | raise e => rfl
  | call op k ih =>
    have hrest : (fun a => ((k a).bind g).expand f) =
        fun a => ((k a).expand f).bind fun b => (g b).expand f := funext ih
    rw [call_bind, expand, hrest, expand, bind_assoc]

theorem Calls.expand {f : (op : O) → Program O' Res' ε (Res op)} {p : Program O Res ε α}
    (hp : p.Calls A) (hf : ∀ op, A op → (f op).Calls B) : (p.expand f).Calls B := by
  induction p with
  | ret a => trivial
  | raise e => trivial
  | call op k ih => exact (hf op hp.1).bind fun a => ih a (hp.2 a)

end Expand

def NoRaise : Program O Res ε α → Prop
  | .ret _ => True
  | .raise _ => False
  | .call _ k => ∀ r, (k r).NoRaise

theorem NoRaise.bind {p : Program O Res ε α} {f : α → Program O Res ε β}
    (hp : p.NoRaise) (hf : ∀ a, (f a).NoRaise) : (p.bind f).NoRaise := by
  induction p with
  | ret a => exact hf a
  | raise e => exact hp.elim
  | call op k ih => exact fun r => ih r (hp r)

theorem NoRaise.attempt (p : Program O Res ε α) : (p.attempt : Program O Res ε' _).NoRaise := by
  induction p with
  | ret a => trivial
  | raise e => trivial
  | call op k ih => exact ih

theorem NoRaise.expand {O' : Type} {Res' : O' → Type} {f : (op : O) → Program O' Res' ε (Res op)}
    {p : Program O Res ε α} (hp : p.NoRaise) (hf : ∀ op, (f op).NoRaise) : (p.expand f).NoRaise := by
  induction p with
  | ret a => trivial
  | raise e => exact hp.elim
  | call op k ih => exact (hf op).bind fun a => ih a (hp a)

end Program

end Interaction
