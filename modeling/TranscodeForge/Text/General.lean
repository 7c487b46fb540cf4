import TranscodeForge.Text.Decimal
import Mathlib.Data.Int.Log
import Mathlib.Data.Rat.Floor

namespace Text

def roundHalfEven (q : Rat) : Int :=
  let rest := q - q.floor
  if rest < 1 / 2 then q.floor
  else if 1 / 2 < rest then q.floor + 1
  else if q.floor % 2 = 0 then q.floor
  else q.floor + 1

-- A positive number as a whole number of `precision` digits and a decimal exponent.
def significant (precision : Nat) (q : Rat) : Nat × Int :=
  let exponent := Int.log 10 q
  let digits := (roundHalfEven (q * 10 ^ ((precision : Int) - 1 - exponent))).toNat
  if digits = 10 ^ precision then (10 ^ (precision - 1), exponent + 1) else (digits, exponent)

def stripZeros (digits : List Char) : List Char :=
  (digits.reverse.dropWhile (· == '0')).reverse

def pointed (whole fraction : List Char) : List Char :=
  if stripZeros fraction = [] then whole else whole ++ '.' :: stripZeros fraction

def signed (n : Int) (text : List Char) : List Char := if n < 0 then '-' :: text else '+' :: text

-- `format(q, "g")`.
def general (q : Rat) : List Char :=
  if q = 0 then ['0']
  else
    let (number, exponent) := significant 6 |q|
    let digits := Nat.toDigits 10 number
    let text :=
      if exponent < -4 ∨ 6 ≤ exponent then
        pointed (digits.take 1) (digits.drop 1) ++
          'e' :: signed exponent (padded 2 exponent.natAbs)
      else if exponent < 0 then
        pointed ['0'] (List.replicate (exponent.natAbs - 1) '0' ++ digits)
      else pointed (digits.take (exponent.toNat + 1)) (digits.drop (exponent.toNat + 1))
    if q < 0 then '-' :: text else text

def isGeneral (c : Char) : Bool := c.isDigit || c == '.' || c == 'e' || c == '-' || c == '+'

section Characters

theorem mem_stripZeros {digits : List Char} {c : Char} (h : c ∈ stripZeros digits) :
    c ∈ digits := by
  rw [stripZeros, List.mem_reverse] at h
  exact List.mem_reverse.mp ((List.dropWhile_sublist _).subset h)

theorem isGeneral_of_isDigit {c : Char} (h : c.isDigit = true) : isGeneral c = true := by
  simp [isGeneral, h]

theorem isGeneral_pointed {whole fraction : List Char} (hwhole : ∀ c ∈ whole, c.isDigit = true)
    (hfraction : ∀ c ∈ fraction, c.isDigit = true) :
    ∀ c ∈ pointed whole fraction, isGeneral c = true := by
  intro c hc
  unfold pointed at hc
  split at hc
  · exact isGeneral_of_isDigit (hwhole c hc)
  · rcases List.mem_append.mp hc with hc | hc
    · exact isGeneral_of_isDigit (hwhole c hc)
    · rcases List.mem_cons.mp hc with rfl | hc
      · decide
      · exact isGeneral_of_isDigit (hfraction c (mem_stripZeros hc))

theorem isDigit_toDigits {n : Nat} : ∀ c ∈ Nat.toDigits 10 n, c.isDigit = true :=
  fun _ hc => Nat.isDigit_of_mem_toDigits (by decide) (by decide) hc

theorem isGeneral_general (q : Rat) : ∀ c ∈ general q, isGeneral c = true := by
  unfold general
  split
  · exact List.forall_mem_singleton.mpr (by decide)
  · generalize significant 6 |q| = parts
    obtain ⟨number, exponent⟩ := parts
    have hdigits := isDigit_toDigits (n := number)
    have htake : ∀ k, ∀ c ∈ (Nat.toDigits 10 number).take k, c.isDigit = true :=
      fun k c hc => hdigits c (List.mem_of_mem_take hc)
    have hdrop : ∀ k, ∀ c ∈ (Nat.toDigits 10 number).drop k, c.isDigit = true :=
      fun k c hc => hdigits c (List.mem_of_mem_drop hc)
    have hzero : ('0' : Char).isDigit = true := by decide
    have htext : ∀ c ∈ (if exponent < -4 ∨ 6 ≤ exponent then
        pointed ((Nat.toDigits 10 number).take 1) ((Nat.toDigits 10 number).drop 1) ++
          'e' :: signed exponent (padded 2 exponent.natAbs)
      else if exponent < 0 then
        pointed ['0'] (List.replicate (exponent.natAbs - 1) '0' ++ Nat.toDigits 10 number)
      else pointed ((Nat.toDigits 10 number).take (exponent.toNat + 1))
        ((Nat.toDigits 10 number).drop (exponent.toNat + 1))), isGeneral c = true := by
      intro c hc
      split at hc
      · rcases List.mem_append.mp hc with hc | hc
        · exact isGeneral_pointed (htake 1) (hdrop 1) c hc
        · rcases List.mem_cons.mp hc with rfl | hc
          · decide
          · unfold signed at hc
            split at hc
            all_goals
              rcases List.mem_cons.mp hc with rfl | hc
              · decide
              · exact isGeneral_of_isDigit (isDigit_padded hc)
      · split at hc
        · refine isGeneral_pointed ?_ ?_ c hc
          · simpa using hzero
          · intro c hc
            rcases List.mem_append.mp hc with hc | hc
            · rw [List.eq_of_mem_replicate hc]
              exact hzero
            · exact hdigits c hc
        · exact isGeneral_pointed (htake _) (hdrop _) c hc
    intro c hc
    dsimp only at hc
    split at hc
    · rcases List.mem_cons.mp hc with rfl | hc
      · decide
      · exact htext c hc
    · exact htext c hc

end Characters

end Text
