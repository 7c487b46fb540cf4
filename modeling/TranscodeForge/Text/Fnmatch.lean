import Mathlib.Data.List.Infix

namespace Text

namespace Fnmatch

inductive Token where
  | one (c : Char)
  | any
  | star
  | oneOf (negated : Bool) (ranges : List (Char × Char))
deriving DecidableEq, Repr

-- A hyphen between two characters makes a range.
def ranges : List Char → List (Char × Char)
  | c :: '-' :: c' :: rest => (c, c') :: ranges rest
  | c :: rest => (c, c) :: ranges rest
  | [] => []

def closing : List Char → Option (List Char × List Char)
  | [] => none
  | c :: rest =>
    if c = ']' then some ([], rest)
    else (closing rest).map fun (stuff, rest') => (c :: stuff, rest')

-- The first character is a member, also where it is a closing bracket.
def members : List Char → Option (List Char × List Char)
  | [] => none
  | c :: rest => (closing rest).map fun (stuff, rest') => (c :: stuff, rest')

def bracket (pattern : List Char) : Option (Token × List Char) :=
  match pattern with
  | '!' :: rest => (members rest).map fun (stuff, rest') => (.oneOf true (ranges stuff), rest')
  | rest => (members rest).map fun (stuff, rest') => (.oneOf false (ranges stuff), rest')

-- A bracket that is not closed stands for itself. The number bounds the length.
def tokens : Nat → List Char → List Token
  | 0, _ => []
  | _ + 1, [] => []
  | n + 1, c :: rest =>
    if c = '*' then .star :: tokens n rest
    else if c = '?' then .any :: tokens n rest
    else if c = '[' then
      match bracket rest with
      | some (token, rest') => token :: tokens n rest'
      | none => .one c :: tokens n rest
    else .one c :: tokens n rest

def parse (pattern : List Char) : List Token := tokens pattern.length pattern

def Token.accepts (c : Char) : Token → Bool
  | .one c' => c == c'
  | .any => true
  | .star => false
  | .oneOf negated l => l.any (fun r => r.1 ≤ c && c ≤ r.2) != negated

def run : List Token → List Char → Bool
  | [], s => s.isEmpty
  | .star :: ts, s => s.tails.any (run ts)
  | _ :: _, [] => false
  | t :: ts, c :: s => t.accepts c && run ts s

end Fnmatch

-- `fnmatch.fnmatchcase`.
def fnmatch (pattern name : String) : Bool :=
  Fnmatch.run (Fnmatch.parse pattern.toList) name.toList

namespace Fnmatch

section Parsing

variable {p s : List Char}

theorem closing_none (hs : ']' ∉ s) : closing s = none := by
  induction s with
  | nil => rfl
  | cons c s ih =>
    rw [List.mem_cons, not_or] at hs
    rw [closing, if_neg (Ne.symm hs.1), ih hs.2]
    rfl

theorem members_none (hs : ']' ∉ s) : members s = none := by
  cases s with
  | nil => rfl
  | cons c s =>
    rw [members, closing_none fun h => hs (List.mem_cons_of_mem _ h)]
    rfl

theorem closing_append (hs : ']' ∉ s) :
    closing (p ++ s) = (closing p).map fun x => (x.1, x.2 ++ s) := by
  induction p with
  | nil => exact closing_none hs
  | cons c p ih =>
    rw [List.cons_append, closing, closing]
    split
    · rfl
    · rw [ih]
      cases closing p <;> rfl

theorem members_append (hs : ']' ∉ s) :
    members (p ++ s) = (members p).map fun x => (x.1, x.2 ++ s) := by
  cases p with
  | nil => exact members_none hs
  | cons c p =>
    rw [List.cons_append, members, members, closing_append hs]
    cases closing p <;> rfl

theorem bracket_bang (p : List Char) :
    bracket ('!' :: p) = (members p).map fun x => (.oneOf true (ranges x.1), x.2) := rfl

theorem bracket_plain {c : Char} (hc : c ≠ '!') (p : List Char) :
    bracket (c :: p) = (members (c :: p)).map fun x => (.oneOf false (ranges x.1), x.2) := by
  unfold bracket
  split
  · next heq => exact absurd (List.cons.inj heq).1 hc
  · rfl

theorem bracket_none (hs : ']' ∉ s) : bracket s = none := by
  cases s with
  | nil => rfl
  | cons c s =>
    by_cases hc : c = '!'
    · subst hc
      rw [bracket_bang, members_none fun h => hs (List.mem_cons_of_mem _ h)]
      rfl
    · rw [bracket_plain hc, members_none hs]
      rfl

theorem bracket_append (hs : ']' ∉ s) :
    bracket (p ++ s) = (bracket p).map fun x => (x.1, x.2 ++ s) := by
  cases p with
  | nil => exact bracket_none hs
  | cons c p =>
    rw [List.cons_append]
    by_cases hc : c = '!'
    · subst hc
      rw [bracket_bang, bracket_bang, members_append hs]
      cases members p <;> rfl
    · have happend := members_append (p := c :: p) hs
      rw [List.cons_append] at happend
      rw [bracket_plain hc, bracket_plain hc, happend]
      cases members (c :: p) <;> rfl

theorem closing_length {stuff rest : List Char} (h : closing p = some (stuff, rest)) :
    rest.length < p.length := by
  induction p generalizing stuff rest with
  | nil => cases h
  | cons c p ih =>
    rw [closing] at h
    split at h
    · cases h
      exact Nat.lt_succ_self _
    · obtain ⟨⟨stuff', rest'⟩, hp, heq⟩ := Option.map_eq_some_iff.mp h
      cases heq
      exact Nat.lt_succ_of_lt (ih hp)

theorem members_length {stuff rest : List Char} (h : members p = some (stuff, rest)) :
    rest.length < p.length := by
  cases p with
  | nil => cases h
  | cons c p =>
    obtain ⟨⟨stuff', rest'⟩, hp, heq⟩ := Option.map_eq_some_iff.mp h
    cases heq
    exact Nat.lt_succ_of_lt (closing_length hp)

theorem bracket_length {token : Token} {rest : List Char} (h : bracket p = some (token, rest)) :
    rest.length < p.length := by
  cases p with
  | nil => cases h
  | cons c p =>
    by_cases hc : c = '!'
    · subst hc
      obtain ⟨⟨stuff, rest'⟩, hp, heq⟩ := Option.map_eq_some_iff.mp h
      cases heq
      exact Nat.lt_succ_of_lt (members_length hp)
    · rw [bracket_plain hc] at h
      obtain ⟨⟨stuff, rest'⟩, hp, heq⟩ := Option.map_eq_some_iff.mp h
      cases heq
      exact members_length hp

theorem tokens_bound {n m : Nat} (hn : p.length ≤ n) (hm : p.length ≤ m) :
    tokens n p = tokens m p := by
  induction n generalizing m p with
  | zero =>
    rw [List.eq_nil_of_length_eq_zero (Nat.le_zero.mp hn)]
    cases m <;> rfl
  | succ n ih =>
    cases p with
    | nil => cases m <;> rfl
    | cons c p =>
      cases m with
      | zero => cases hm
      | succ m =>
        have hrest : tokens n p = tokens m p :=
          ih (Nat.le_of_succ_le_succ hn) (Nat.le_of_succ_le_succ hm)
        rw [tokens, tokens, hrest]
        cases hbracket : bracket p with
        | none => rfl
        | some x =>
          obtain ⟨token, rest⟩ := x
          have hlength := bracket_length hbracket
          simp only [List.length_cons] at hn hm
          have hrest' : tokens n rest = tokens m rest := ih (by omega) (by omega)
          simp only [hrest']

-- A suffix that closes no bracket is read on its own.
theorem parse_append (hs : ']' ∉ s) : parse (p ++ s) = parse p ++ parse s := by
  have hgeneral : ∀ n p, (p ++ s).length ≤ n → tokens n (p ++ s) = tokens n p ++ tokens n s := by
    intro n
    induction n with
    | zero =>
      intro p _
      rfl
    | succ n ih =>
      intro p hn
      cases p with
      | nil => rfl
      | cons c p =>
        simp only [List.cons_append, List.length_cons, List.length_append] at hn
        have hsuffix : tokens n s = tokens (n + 1) s := tokens_bound (by omega) (by omega)
        have hrest := ih p (by simp; omega)
        rw [List.cons_append, tokens, tokens, bracket_append hs, hrest, hsuffix]
        cases hbracket : bracket p with
        | none =>
          simp only [Option.map_none]
          split
          · rfl
          · split
            · rfl
            · split <;> rfl
        | some x =>
          obtain ⟨token, rest⟩ := x
          have hlength := bracket_length hbracket
          have hrest' := ih rest (by simp; omega)
          simp only [Option.map_some, hrest', hsuffix]
          split
          · rfl
          · split
            · rfl
            · split <;> rfl
  have hp : tokens (p ++ s).length p = parse p := tokens_bound (by simp) (Nat.le_refl _)
  have hs' : tokens (p ++ s).length s = parse s := tokens_bound (by simp) (Nat.le_refl _)
  rw [parse, hgeneral _ p (Nat.le_refl _), hp, hs']

def isPlain (c : Char) : Bool := c != '*' && c != '?' && c != '['

theorem parse_plain (hp : ∀ c ∈ p, isPlain c = true) : parse p = p.map .one := by
  induction p with
  | nil => rfl
  | cons c p ih =>
    obtain ⟨hc, hrest⟩ := List.forall_mem_cons.mp hp
    simp only [isPlain, Bool.and_eq_true, bne_iff_ne] at hc
    rw [parse, List.length_cons, tokens, if_neg hc.1.1, if_neg hc.1.2, if_neg hc.2]
    exact congrArg (List.cons _) (ih hrest)

end Parsing

section Matching

variable {ts us : List Token} {s : List Char}

theorem run_star : run (.star :: ts) s = true ↔ ∃ a b, s = a ++ b ∧ run ts b = true := by
  simp only [run, List.any_eq_true, List.mem_tails]
  constructor
  · rintro ⟨b, ⟨a, rfl⟩, hb⟩
    exact ⟨a, b, rfl, hb⟩
  · rintro ⟨a, b, rfl, hb⟩
    exact ⟨b, ⟨a, rfl⟩, hb⟩

theorem run_cons {t : Token} (ht : t ≠ .star) :
    run (t :: ts) s = true ↔ ∃ c b, s = c :: b ∧ t.accepts c = true ∧ run ts b = true := by
  cases s with
  | nil => cases t <;> simp_all [run]
  | cons c b => cases t <;> simp_all [run]

theorem run_append :
    run (ts ++ us) s = true ↔ ∃ a b, s = a ++ b ∧ run ts a = true ∧ run us b = true := by
  induction ts generalizing s with
  | nil =>
    constructor
    · intro h
      exact ⟨[], s, rfl, rfl, h⟩
    · rintro ⟨a, b, rfl, ha, hb⟩
      rw [run, List.isEmpty_iff] at ha
      subst ha
      exact hb
  | cons t ts ih =>
    by_cases ht : t = .star
    · subst ht
      rw [List.cons_append, run_star]
      simp only [ih, run_star]
      constructor
      · rintro ⟨a, _, rfl, b, c, rfl, hb, hc⟩
        exact ⟨a ++ b, c, by simp, ⟨a, b, rfl, hb⟩, hc⟩
      · rintro ⟨_, c, rfl, ⟨a, b, rfl, hb⟩, hc⟩
        exact ⟨a, b ++ c, by simp, b, c, rfl, hb, hc⟩
    · rw [List.cons_append, run_cons ht]
      simp only [ih, run_cons ht]
      constructor
      · rintro ⟨c, _, rfl, hc, a, b, rfl, ha, hb⟩
        exact ⟨c :: a, b, rfl, ⟨c, a, rfl, hc, ha⟩, hb⟩
      · rintro ⟨_, b, rfl, ⟨c, a, rfl, hc, ha⟩, hb⟩
        exact ⟨c, a ++ b, rfl, hc, a, b, rfl, ha, hb⟩

theorem run_one {l : List Char} : run (l.map .one) s = true ↔ s = l := by
  induction l generalizing s with
  | nil => simp [run]
  | cons c l ih =>
    rw [List.map_cons, run_cons (by simp)]
    simp only [ih, Token.accepts, beq_iff_eq]
    constructor
    · rintro ⟨_, _, rfl, rfl, rfl⟩
      rfl
    · rintro rfl
      exact ⟨c, l, rfl, rfl, rfl⟩

end Matching

end Fnmatch

end Text
