import Mathlib.Data.List.Basic

namespace TranscodeForge.Placeholders

abbrev singleQuote : Char := '\x27'

abbrev doubleQuote : Char := '\x22'

-- `f"${counter}"`.
def numbered (counter : Nat) : List Char := '$' :: Nat.toDigits 10 counter

structure Scan where
  out : List Char := []
  counter : Nat := 0
  quote : Option Char := none
deriving DecidableEq, Repr

def Scan.read (s : Scan) (ch : Char) : Scan :=
  match s.quote with
  | some quote => { s with out := s.out ++ [ch], quote := if ch = quote then none else some quote }
  | none =>
    if ch = singleQuote ∨ ch = doubleQuote then { s with out := s.out ++ [ch], quote := some ch }
    else if ch = '?' then
      { s with out := s.out ++ numbered (s.counter + 1), counter := s.counter + 1 }
    else { s with out := s.out ++ [ch] }

def scan (sql : List Char) : Scan := sql.foldl Scan.read {}

def translatePlaceholders (sql : String) : String := String.ofList (scan sql.toList).out

section Reference

-- A literal or an identifier with its quotes, a placeholder, or any other character.
inductive Token where
  | quoted (text : List Char)
  | mark
  | plain (c : Char)
deriving DecidableEq, Repr

def Token.text : Token → List Char
  | .quoted text => text
  | .mark => ['?']
  | .plain c => [c]

def IsQuote (c : Char) : Prop := c = singleQuote ∨ c = doubleQuote

instance (c : Char) : Decidable (IsQuote c) := inferInstanceAs (Decidable (_ ∨ _))

-- In a quoted text, its quote and what has been read of it: a doubled quote is part of the text, a
-- single one ends it. A text that is not ended is a token too.
def lex : Option (Char × List Char) → List Char → List Token
  | none, [] => []
  | some (_, text), [] => [.quoted text]
  | none, c :: rest =>
    if IsQuote c then lex (some (c, [c])) rest
    else if c = '?' then .mark :: lex none rest
    else .plain c :: lex none rest
  | some (q, text), [c] =>
    if c = q then [.quoted (text ++ [c])] else lex (some (q, text ++ [c])) []
  | some (q, text), c :: c' :: rest =>
    if c = q then
      if c' = q then lex (some (q, text ++ [c, c'])) rest
      else .quoted (text ++ [c]) :: lex none (c' :: rest)
    else lex (some (q, text ++ [c])) (c' :: rest)

def tokens (sql : String) : List Token := lex none sql.toList

-- The text that the placeholders are numbered in, from `n` on.
def render : Nat → List Token → List Char
  | _, [] => []
  | n, .quoted text :: ts => text ++ render n ts
  | n, .mark :: ts => numbered (n + 1) ++ render (n + 1) ts
  | n, .plain c :: ts => c :: render n ts

-- Between its quotes, a text has its quote only doubled.
inductive Body (q : Char) : List Char → Prop
  | nil : Body q []
  | char (text : List Char) (c : Char) : Body q text → c ≠ q → Body q (text ++ [c])
  | doubled (text : List Char) : Body q text → Body q (text ++ [q, q])

inductive Token.Formed : Token → Prop
  | closed (q : Char) (body : List Char) : IsQuote q → Body q body → Formed (.quoted (q :: body ++ [q]))
  | unclosed (q : Char) (body : List Char) : IsQuote q → Body q body → Formed (.quoted (q :: body))
  | mark : Formed .mark
  | plain (c : Char) : ¬ IsQuote c → c ≠ '?' → Formed (.plain c)

end Reference

section Simulation

variable {sql : List Char} {state : Option (Char × List Char)} {out : List Char} {n : Nat}

-- The scanner where the reference lexer stands, with `out` written for the tokens before.
def Scan.beside (out : List Char) (n : Nat) : Option (Char × List Char) → Scan
  | none => ⟨out, n, none⟩
  | some (q, text) => ⟨out ++ text, n, some q⟩

def InQuotes (state : Option (Char × List Char)) : Prop := ∀ x ∈ state, IsQuote x.1

section Steps

variable {q c : Char} {text : List Char}

theorem read_opens (h : IsQuote c) :
    (Scan.beside out n none).read c = .beside out n (some (c, [c])) := by
  simp only [Scan.beside, Scan.read]
  exact if_pos h

theorem read_mark : (Scan.beside out n none).read '?' = .beside (out ++ numbered (n + 1)) (n + 1) none := by
  simp only [Scan.beside, Scan.read]
  rw [if_neg (by decide), if_pos trivial]

theorem read_plain (h : ¬ IsQuote c) (hmark : c ≠ '?') :
    (Scan.beside out n none).read c = .beside (out ++ [c]) n none := by
  have hnot : ¬ (c = singleQuote ∨ c = doubleQuote) := h
  simp only [Scan.beside, Scan.read]
  rw [if_neg hnot, if_neg hmark]

theorem read_inside (h : c ≠ q) :
    (Scan.beside out n (some (q, text))).read c = .beside out n (some (q, text ++ [c])) := by
  simp [Scan.beside, Scan.read, h]

theorem read_closes :
    (Scan.beside out n (some (q, text))).read q = .beside (out ++ (text ++ [q])) n none := by
  simp [Scan.beside, Scan.read]

-- The second of two quotes opens what the first one closed.
theorem read_reopens (h : IsQuote q) :
    (Scan.beside (out ++ (text ++ [q])) n none).read q = .beside out n (some (q, text ++ [q, q])) := by
  rw [read_opens h]
  simp [Scan.beside]

end Steps

structure Follows (out : List Char) (n : Nat) (tokens : List Token) (s : Scan) : Prop where
  out : s.out = out ++ render n tokens
  counter : s.counter = n + tokens.count .mark

theorem Follows.quoted {text : List Char} {ts : List Token} {s : Scan}
    (h : Follows (out ++ text) n ts s) : Follows out n (.quoted text :: ts) s where
  out := by rw [h.out, render, List.append_assoc]
  counter := by rw [h.counter, List.count_cons_of_ne (by simp)]

theorem Follows.plain {c : Char} {ts : List Token} {s : Scan} (h : Follows (out ++ [c]) n ts s) :
    Follows out n (.plain c :: ts) s where
  out := by simp [h.out, render]
  counter := by rw [h.counter, List.count_cons_of_ne (by simp)]

theorem Follows.mark {ts : List Token} {s : Scan}
    (h : Follows (out ++ numbered (n + 1)) (n + 1) ts s) : Follows out n (.mark :: ts) s where
  out := by rw [h.out, render, List.append_assoc]
  counter := by
    rw [h.counter, List.count_cons_self]
    omega

theorem follows_end {quote : Option Char} : Follows out n [] ⟨out, n, quote⟩ where
  out := by simp [render]
  counter := by simp

theorem InQuotes.inside {q : Char} {text : List Char} (h : InQuotes (some (q, text)))
    (text' : List Char) : InQuotes (some (q, text')) := by
  intro x hx
  cases hx
  exact h (q, text) rfl

theorem scan_follows (hstate : InQuotes state) :
    Follows out n (lex state sql) (sql.foldl Scan.read (.beside out n state)) := by
  induction state, sql using lex.induct generalizing out n with
  | case1 =>
    rw [lex]
    exact follows_end
  | case2 q text =>
    rw [lex]
    exact .quoted follows_end
  | case3 c rest hquote ih =>
    rw [lex, if_pos hquote, List.foldl_cons, read_opens hquote]
    exact ih (by simpa [InQuotes] using hquote)
  | case4 rest hquote ih =>
    rw [lex, if_neg hquote, if_pos rfl, List.foldl_cons, read_mark]
    exact (ih (by simp [InQuotes])).mark
  | case5 c rest hquote hmark ih =>
    rw [lex, if_neg hquote, if_neg hmark, List.foldl_cons, read_plain hquote hmark]
    exact (ih (by simp [InQuotes])).plain
  | case6 q text =>
    rw [lex, if_pos rfl, List.foldl_cons, read_closes]
    exact .quoted follows_end
  | case7 q text c hinside ih =>
    rw [lex, if_neg hinside, List.foldl_cons, read_inside hinside]
    exact ih (hstate.inside _)
  | case8 text q rest ih =>
    have hquote : IsQuote q := hstate _ rfl
    rw [lex, if_pos rfl, if_pos rfl, List.foldl_cons, List.foldl_cons, read_closes,
      read_reopens hquote]
    exact ih (hstate.inside _)
  | case9 q text c' rest hsingle ih =>
    rw [lex, if_pos rfl, if_neg hsingle, List.foldl_cons, read_closes]
    exact (ih (by simp [InQuotes])).quoted
  | case10 q text c c' rest hinside ih =>
    rw [lex, if_neg hinside, List.foldl_cons, read_inside hinside]
    exact ih (hstate.inside _)

end Simulation

section Tokens

variable {state : Option (Char × List Char)} {sql : List Char}

theorem lex_text : (lex state sql).flatMap Token.text =
    (state.map Prod.snd).getD [] ++ sql := by
  induction state, sql using lex.induct with
  | case1 => rfl
  | case2 q text => simp [lex, Token.text]
  | case3 c rest hquote ih =>
    rw [lex, if_pos hquote, ih]
    rfl
  | case4 rest hquote ih =>
    rw [lex, if_neg hquote, if_pos rfl, List.flatMap_cons, ih]
    rfl
  | case5 c rest hquote hmark ih =>
    rw [lex, if_neg hquote, if_neg hmark, List.flatMap_cons, ih]
    rfl
  | case6 q text => simp [lex, Token.text]
  | case7 q text c hinside ih =>
    rw [lex, if_neg hinside, ih]
    simp
  | case8 text q rest ih =>
    rw [lex, if_pos rfl, if_pos rfl, ih]
    simp
  | case9 q text c' rest hsingle ih =>
    rw [lex, if_pos rfl, if_neg hsingle, List.flatMap_cons, ih]
    simp [Token.text]
  | case10 q text c c' rest hinside ih =>
    rw [lex, if_neg hinside, ih]
    simp

-- What has been read of a quoted text: its quote, and a body.
def Reading (state : Option (Char × List Char)) : Prop :=
  ∀ x ∈ state, IsQuote x.1 ∧ ∃ body, x.2 = x.1 :: body ∧ Body x.1 body

theorem Reading.body {q : Char} {text : List Char} (h : Reading (some (q, text))) :
    IsQuote q ∧ ∃ body, text = q :: body ∧ Body q body := h (q, text) rfl

theorem Reading.formed {q : Char} {text : List Char} (h : Reading (some (q, text))) :
    (Token.quoted text).Formed ∧ (Token.quoted (text ++ [q])).Formed := by
  obtain ⟨hquote, body, rfl, hbody⟩ := h.body
  exact ⟨.unclosed q body hquote hbody, .closed q body hquote hbody⟩

theorem Reading.char {q c : Char} {text : List Char} (h : Reading (some (q, text))) (hc : c ≠ q) :
    Reading (some (q, text ++ [c])) := by
  intro x hx
  cases hx
  obtain ⟨hquote, body, rfl, hbody⟩ := h.body
  exact ⟨hquote, body ++ [c], rfl, hbody.char body c hc⟩

theorem Reading.doubled {q : Char} {text : List Char} (h : Reading (some (q, text))) :
    Reading (some (q, text ++ [q, q])) := by
  intro x hx
  cases hx
  obtain ⟨hquote, body, rfl, hbody⟩ := h.body
  exact ⟨hquote, body ++ [q, q], rfl, hbody.doubled⟩

theorem lex_formed (hstate : Reading state) : ∀ t ∈ lex state sql, t.Formed := by
  have hnone : Reading none := by simp [Reading]
  induction state, sql using lex.induct with
  | case1 => simp [lex]
  | case2 q text => simpa [lex] using hstate.formed.1
  | case3 c rest hquote ih =>
    rw [lex, if_pos hquote]
    refine ih ?_
    intro x hx
    cases hx
    exact ⟨hquote, [], rfl, .nil⟩
  | case4 rest hquote ih =>
    rw [lex, if_neg hquote, if_pos rfl]
    exact List.forall_mem_cons.mpr ⟨.mark, ih hnone⟩
  | case5 c rest hquote hmark ih =>
    rw [lex, if_neg hquote, if_neg hmark]
    exact List.forall_mem_cons.mpr ⟨.plain c hquote hmark, ih hnone⟩
  | case6 q text => simpa [lex] using hstate.formed.2
  | case7 q text c hinside ih =>
    rw [lex, if_neg hinside]
    exact ih (hstate.char hinside)
  | case8 text q rest ih =>
    rw [lex, if_pos rfl, if_pos rfl]
    exact ih hstate.doubled
  | case9 q text c' rest hsingle ih =>
    rw [lex, if_pos rfl, if_neg hsingle]
    exact List.forall_mem_cons.mpr ⟨hstate.formed.2, ih hnone⟩
  | case10 q text c c' rest hinside ih =>
    rw [lex, if_neg hinside]
    exact ih (hstate.char hinside)

end Tokens

-- The tokens are the text; the translation numbers the placeholders among them and leaves every
-- other one as it is.
theorem translatePlaceholders_exact (sql : String) :
    (tokens sql).flatMap Token.text = sql.toList ∧ (∀ t ∈ tokens sql, t.Formed) ∧
      translatePlaceholders sql = String.ofList (render 0 (tokens sql)) ∧
      (scan sql.toList).counter = (tokens sql).count .mark := by
  have hfollows : Follows [] 0 (tokens sql) (scan sql.toList) := scan_follows (by simp [InQuotes])
  refine ⟨lex_text, lex_formed (by simp [Reading]), ?_, ?_⟩
  · rw [translatePlaceholders, hfollows.out, List.nil_append]
  · rw [hfollows.counter, Nat.zero_add]

example : translatePlaceholders "a = ? AND b = 'it''s ?' AND \"c\"\"?\" < ?" =
    "a = $1 AND b = 'it''s ?' AND \"c\"\"?\" < $2" := by decide

end TranscodeForge.Placeholders
