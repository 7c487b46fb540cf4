import Mathlib.Data.String.Basic

namespace Text

section Lists

variable {α : Type} [LT α]

theorem append_lt_append {l l' : List α} (hlen : l.length = l'.length) (h : l < l')
    (rest rest' : List α) : l ++ rest < l' ++ rest' := by
  induction l generalizing l' with
  | nil =>
    cases l' with
    | nil => exact absurd h (List.not_lt_nil _)
    | cons a' l' => simp at hlen
  | cons a l ih =>
    cases l' with
    | nil => simp at hlen
    | cons a' l' =>
      rw [List.cons_lt_cons_iff] at h
      rw [List.cons_append, List.cons_append, List.cons_lt_cons_iff]
      rcases h with h | ⟨rfl, h⟩
      · exact .inl h
      · exact .inr ⟨rfl, ih (by simpa using hlen) h⟩

end Lists

-- `format(n, "0wd")`.
def padded (w n : Nat) : List Char :=
  List.replicate (w - (Nat.toDigits 10 n).length) '0' ++ Nat.toDigits 10 n

theorem isDigit_padded {w n : Nat} {c : Char} (h : c ∈ padded w n) : c.isDigit := by
  rcases List.mem_append.mp h with h | h
  · rw [List.eq_of_mem_replicate h]
    decide
  · exact Nat.isDigit_of_mem_toDigits (by decide) (by decide) h

theorem padded_ne_nil (w n : Nat) : padded w n ≠ [] := by
  simp [padded]

theorem length_padded {w n : Nat} (hw : 0 < w) (hn : n < 10 ^ w) : (padded w n).length = w := by
  have hlen : (Nat.toDigits 10 n).length ≤ w := (Nat.length_toDigits_le_iff (by decide) hw).mpr hn
  simp only [padded, List.length_append, List.length_replicate]
  omega

theorem padded_succ {w : Nat} (hw : 0 < w) (n : Nat) :
    padded (w + 1) n = padded w (n / 10) ++ [Nat.digitChar (n % 10)] := by
  by_cases hn : n < 10
  · have hdiv : n / 10 = 0 := by omega
    have hmod : n % 10 = n := by omega
    have hpad : List.replicate w '0' = List.replicate (w - 1) '0' ++ ['0'] := by
      rw [← List.replicate_succ', Nat.sub_add_cancel hw]
    simp [padded, Nat.toDigits_of_lt_base hn, hdiv, hmod, hpad]
  · rw [padded, padded, Nat.toDigits_of_base_le (by decide) (by omega)]
    simp

theorem digitChar_lt {m n : Nat} (h : m < n) (hn : n < 10) :
    Nat.digitChar m < Nat.digitChar n := by
  rw [Char.lt_def, UInt32.lt_iff_toNat_lt]
  change (Nat.digitChar m).toNat < (Nat.digitChar n).toNat
  rw [Nat.toNat_digitChar_of_lt_ten hn, Nat.toNat_digitChar_of_lt_ten (by omega)]
  omega

-- Padded to one width, the order of the numbers is the order of the texts.
theorem padded_lt {w m n : Nat} (hw : 0 < w) (h : m < n) (hn : n < 10 ^ w) :
    padded w m < padded w n := by
  induction w generalizing m n with
  | zero => omega
  | succ w ih =>
    rcases Nat.eq_zero_or_pos w with rfl | hpos
    · have hm : m < 10 := by omega
      have hlast := digitChar_lt h (by omega)
      simp only [padded, Nat.toDigits_of_lt_base (by omega : n < 10), Nat.toDigits_of_lt_base hm]
      exact List.cons_lt_cons_iff.mpr (.inl hlast)
    · rw [padded_succ hpos, padded_succ hpos]
      rw [Nat.pow_succ] at hn
      by_cases hdiv : m / 10 < n / 10
      · have hm : m / 10 < 10 ^ w := by omega
        have hlen : (padded w (m / 10)).length = (padded w (n / 10)).length := by
          rw [length_padded hpos hm, length_padded hpos (by omega)]
        exact append_lt_append hlen (ih hpos hdiv (by omega)) _ _
      · have hsame : m / 10 = n / 10 := by omega
        have hlast : Nat.digitChar (m % 10) < Nat.digitChar (n % 10) :=
          digitChar_lt (by omega) (by omega)
        rw [hsame]
        apply List.append_left_lt
        exact List.cons_lt_cons_iff.mpr (.inl hlast)

-- Python's `int()` on a text without a minus sign.
def digitsFrom (value : Nat) : List Char → Option Nat
  | [] => some value
  | '_' :: c :: rest =>
    if c.isDigit then digitsFrom (10 * value + (c.toNat - '0'.toNat)) rest else none
  | c :: rest =>
    if c.isDigit then digitsFrom (10 * value + (c.toNat - '0'.toNat)) rest else none

def decimal : List Char → Option Nat
  | [] => none
  | c :: rest => if c.isDigit then digitsFrom (c.toNat - '0'.toNat) rest else none

def stripped (text : List Char) : List Char :=
  ((text.dropWhile Char.isWhitespace).reverse.dropWhile Char.isWhitespace).reverse

def int (text : List Char) : Option Nat :=
  match stripped text with
  | '+' :: rest => decimal rest
  | rest => decimal rest

theorem digitsFrom_digits {text : List Char} (h : ∀ c ∈ text, c.isDigit) (value : Nat) :
    digitsFrom value text = some (Nat.ofDigitChars 10 text value) := by
  induction text generalizing value with
  | nil => simp [digitsFrom]
  | cons c rest ih =>
    have hc : c.isDigit := h c (by simp)
    have hrest : ∀ c ∈ rest, c.isDigit := fun c hmem => h c (by simp [hmem])
    have hnot : c ≠ '_' := by
      rintro rfl
      exact absurd hc (by decide)
    rw [digitsFrom, if_pos hc, ih hrest, Nat.ofDigitChars_cons]
    intro _ _ heq _
    exact hnot heq

theorem not_isWhitespace_of_isDigit {c : Char} (h : c.isDigit) : c.isWhitespace = false := by
  rw [Char.isDigit, Bool.and_eq_true, decide_eq_true_eq, decide_eq_true_eq] at h
  by_contra hspace
  simp only [Bool.not_eq_false, Char.isWhitespace, Bool.or_eq_true, decide_eq_true_eq] at hspace
  rcases hspace with ((rfl | rfl) | rfl) | rfl
  all_goals exact absurd h (by decide)

theorem stripped_digits {text : List Char} (h : ∀ c ∈ text, c.isDigit) : stripped text = text := by
  have hkeep : ∀ l : List Char, (∀ c ∈ l, c.isDigit) → l.dropWhile Char.isWhitespace = l := by
    intro l hl
    cases l with
    | nil => rfl
    | cons c rest => simp [not_isWhitespace_of_isDigit (hl c (by simp))]
  rw [stripped, hkeep text h, hkeep text.reverse (by simpa using h), List.reverse_reverse]

theorem int_padded (w n : Nat) : int (padded w n) = some n := by
  have hdigits : ∀ c ∈ padded w n, c.isDigit := fun c => isDigit_padded
  have hvalue : Nat.ofDigitChars 10 (padded w n) 0 = n := by
    rw [padded, Nat.ofDigitChars_append, Nat.ofDigitChars_replicate_zero, Nat.mul_zero,
      Nat.ofDigitChars_ten_toDigits]
  rw [int, stripped_digits hdigits]
  obtain ⟨c, rest, hcons⟩ := List.exists_cons_of_ne_nil (padded_ne_nil w n)
  rw [hcons] at hdigits hvalue ⊢
  have hc : c.isDigit := hdigits c (by simp)
  have hrest := digitsFrom_digits (fun c hmem => hdigits c (List.mem_cons_of_mem _ hmem))
    (c.toNat - '0'.toNat)
  have hnot : c ≠ '+' := by
    rintro rfl
    exact absurd hc (by decide)
  have hdecimal : decimal (c :: rest) = some n := by
    rw [decimal, if_pos hc, hrest, ← hvalue, Nat.ofDigitChars_cons, Nat.mul_zero, Nat.zero_add]
  split
  · next heq =>
    cases heq
    exact absurd rfl hnot
  · exact hdecimal

end Text
