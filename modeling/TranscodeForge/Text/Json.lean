import Mathlib.Data.Rat.Defs

namespace Text

inductive Float64 where
  | finite (q : Rat)
  | infinite (positive : Bool)
  | nan
deriving DecidableEq, Repr

-- What `json.loads` returns.
inductive Json where
  | null
  | bool (b : Bool)
  | int (n : Int)
  | float (x : Float64)
  | string (s : String)
  | array (items : List Json)
  | object (fields : List (String × Json))
deriving Repr

def Json.string? : Json → Option String
  | .string s => some s
  | _ => none

-- `bool(v)`.
def Json.truthy : Json → Bool
  | .null => false
  | .bool b => b
  | .int n => n ≠ 0
  | .float x => x ≠ .finite 0
  | .string s => s ≠ ""
  | .array items => !items.isEmpty
  | .object fields => !fields.isEmpty

-- `str(v)`; `display` is that of what is not a string.
def str (display : Json → String) : Json → String
  | .string s => s
  | v => display v

inductive Raised where
  | os
  | unicodeDecode
  | jsonDecode
  | value
  | recursion
  | key
  | attribute
  | type
  | overflow
deriving DecidableEq, Repr

def Raised.isValueError : Raised → Bool
  | .unicodeDecode | .jsonDecode | .value => true
  | _ => false

-- What decoding and parsing make of the bytes of a file; an integer of too many digits is a
-- plain ValueError, and nesting that is too deep a RecursionError.
inductive Loaded where
  | undecodable
  | malformed
  | outsized
  | tooDeep
  | value (v : Json)
deriving Repr

def Loaded.loads : Loaded → Except Raised Json
  | .undecodable => .error .unicodeDecode
  | .malformed => .error .jsonDecode
  | .outsized => .error .value
  | .tooDeep => .error .recursion
  | .value v => .ok v

-- A file as it is read: `none` is an OSError.
abbrev FileBytes := Option Loaded

def readText (content : FileBytes) : Except Raised Json :=
  match content with
  | none => .error .os
  | some loaded => loaded.loads

section Catching

variable {α : Type} {caught : Raised → Bool} {fallback : Raised → α} {r : Except Raised α}

-- `try: body; except caught as e: fallback`.
def catching (caught : Raised → Bool) (fallback : Raised → α) : Except Raised α → Except Raised α
  | .ok a => .ok a
  | .error e => if caught e then .ok (fallback e) else .error e

theorem catching_isOk :
    (catching caught fallback r).isOk = true ↔ ∀ e, r = .error e → caught e = true := by
  cases r with
  | ok a => exact iff_of_true rfl (fun e h => nomatch h)
  | error e =>
    cases hcaught : caught e <;> simp [catching, hcaught, Except.isOk, Except.toBool]

-- What is raised, if anything, is of the caught kinds.
def Quiet (caught : Raised → Bool) (r : Except Raised α) : Prop := ∀ e, r = .error e → caught e = true

theorem quiet_ok (caught : Raised → Bool) (a : α) : Quiet caught (.ok a) := fun _ h => nomatch h

theorem quiet_error {e : Raised} : Quiet caught (.error e : Except Raised α) ↔ caught e = true := by
  constructor
  · intro h
    exact h e rfl
  · rintro h _ ⟨⟩
    exact h

theorem bind_ok {β : Type} {f : α → Except Raised β} {b : β} :
    r.bind f = .ok b ↔ ∃ a, r = .ok a ∧ f a = .ok b := by
  cases r <;> simp [Except.bind]

theorem quiet_bind {β : Type} {f : α → Except Raised β} :
    Quiet caught (r.bind f) ↔ Quiet caught r ∧ ∀ a, r = .ok a → Quiet caught (f a) := by
  cases r with
  | ok a =>
    simp only [Except.bind, Except.ok.injEq]
    constructor
    · intro h
      exact ⟨quiet_ok caught a, fun _ ha => ha ▸ h⟩
    · intro h
      exact h.2 a rfl
  | error e => simp [Except.bind, quiet_error]

end Catching

end Text
