import TranscodeForge.Text.Decimal
import Mathlib.Order.Monotone.Basic
import Mathlib.Tactic.SplitIfs
import Mathlib.Data.List.Basic
import Mathlib.Order.Lex
import Mathlib.Data.List.Lex

-- `datetime` in UTC and its `isoformat`.
namespace Text

def isLeap (year : Nat) : Bool := year % 4 == 0 && (year % 100 != 0 || year % 400 == 0)

def daysInMonth (year month : Nat) : Nat :=
  if month = 2 then (if isLeap year then 29 else 28)
  else if month ∈ [4, 6, 9, 11] then 30
  else 31

-- Of the years from 1 on.
def daysBeforeYear (year : Nat) : Nat :=
  let y := year - 1
  y * 365 + y / 4 - y / 100 + y / 400

-- Of the months from 1 on.
def daysBeforeMonth (year : Nat) : Nat → Nat
  | 0 | 1 => 0
  | month + 2 => daysBeforeMonth year (month + 1) + daysInMonth year (month + 1)

structure DateTime where
  year : Nat
  month : Nat
  day : Nat
  hour : Nat
  minute : Nat
  second : Nat
  microsecond : Nat
  year_pos : 0 < year
  year_lt : year < 10 ^ 4
  month_pos : 0 < month
  month_le : month ≤ 12
  day_pos : 0 < day
  day_le : day ≤ daysInMonth year month
  hour_lt : hour < 24
  minute_lt : minute < 60
  second_lt : second < 60
  microsecond_lt : microsecond < 10 ^ 6
deriving DecidableEq, Repr

namespace DateTime

def ordinal (d : DateTime) : Nat :=
  daysBeforeYear d.year + daysBeforeMonth d.year d.month + d.day

-- Microseconds; the first instant of the year 1 is that of day 1.
def instant (d : DateTime) : Nat :=
  (((d.ordinal * 24 + d.hour) * 60 + d.minute) * 60 + d.second) * 10 ^ 6 + d.microsecond

def offset : List Char := "+00:00".toList

def fraction (microsecond : Nat) : List Char :=
  if microsecond = 0 then offset else '.' :: (padded 6 microsecond ++ offset)

def clock (d : DateTime) : List Char :=
  padded 2 d.hour ++ ':' :: (padded 2 d.minute ++ ':' :: (padded 2 d.second ++ fraction d.microsecond))

def isoformat (d : DateTime) : String :=
  String.ofList (padded 4 d.year ++ '-' :: (padded 2 d.month ++ '-' :: (padded 2 d.day ++
    'T' :: d.clock)))

def fields (d : DateTime) : List Nat :=
  [d.year, d.month, d.day, d.hour, d.minute, d.second, d.microsecond]

-- Python compares two datetimes field by field.
instance : LT DateTime := ⟨fun a b => a.fields < b.fields⟩

instance : DecidableLT DateTime := fun a b => inferInstanceAs (Decidable (a.fields < b.fields))

theorem fields_injective {a b : DateTime} (h : a.fields = b.fields) : a = b := by
  cases a
  cases b
  simp only [fields, List.cons.injEq, and_true] at h
  obtain ⟨rfl, rfl, rfl, rfl, rfl, rfl, rfl⟩ := h
  rfl

end DateTime

section Calendar

variable {year month : Nat}

theorem daysBeforeYear_succ (h : 0 < year) : daysBeforeYear (year + 1) =
    daysBeforeYear year + if isLeap year then 366 else 365 := by
  obtain ⟨y, rfl⟩ : ∃ y, year = y + 1 := ⟨year - 1, by omega⟩
  have hcentury : y / 100 ≤ y := Nat.div_le_self y 100
  have hleap : isLeap (y + 1) = true ↔ 4 ∣ y + 1 ∧ (¬ 100 ∣ y + 1 ∨ 400 ∣ y + 1) := by
    simp [isLeap, Nat.dvd_iff_mod_eq_zero]
  simp only [daysBeforeYear, Nat.add_sub_cancel, Nat.succ_div, hleap]
  generalize y / 4 = fours at *
  generalize y / 100 = centuries at *
  generalize y / 400 = cycles at *
  split_ifs <;> omega

theorem daysBeforeMonth_succ (h : 0 < month) :
    daysBeforeMonth year (month + 1) = daysBeforeMonth year month + daysInMonth year month := by
  obtain ⟨m, rfl⟩ : ∃ m, month = m + 1 := ⟨month - 1, by omega⟩
  rfl

theorem daysBeforeMonth_thirteen : daysBeforeMonth year 13 = if isLeap year then 366 else 365 := by
  cases hleap : isLeap year <;> simp [daysBeforeMonth, daysInMonth, hleap]

theorem daysBeforeMonth_mono (year : Nat) : Monotone (daysBeforeMonth year) := by
  refine monotone_nat_of_le_succ fun month => ?_
  cases month with
  | zero => simp [daysBeforeMonth]
  | succ month =>
    have hnext : daysBeforeMonth year (month + 1 + 1) =
        daysBeforeMonth year (month + 1) + daysInMonth year (month + 1) :=
      daysBeforeMonth_succ (Nat.succ_pos month)
    omega

theorem daysBeforeYear_mono : Monotone daysBeforeYear := by
  refine monotone_nat_of_le_succ fun year => ?_
  cases year with
  | zero => simp [daysBeforeYear]
  | succ year =>
    have hnext : daysBeforeYear (year + 1 + 1) =
        daysBeforeYear (year + 1) + if isLeap (year + 1) then 366 else 365 :=
      daysBeforeYear_succ (Nat.succ_pos year)
    omega

end Calendar

namespace DateTime

section Ordinal

variable (d : DateTime) {a b : DateTime}

theorem day_lt_next_month : daysBeforeMonth d.year d.month + d.day ≤
    daysBeforeMonth d.year (d.month + 1) := by
  have hday := d.day_le
  rw [daysBeforeMonth_succ d.month_pos]
  omega

theorem ordinal_le_next_year : d.ordinal ≤ daysBeforeYear (d.year + 1) := by
  have hmonth := d.day_lt_next_month
  have hlast : daysBeforeMonth d.year (d.month + 1) ≤ daysBeforeMonth d.year 13 :=
    daysBeforeMonth_mono d.year (by have := d.month_le; omega)
  rw [daysBeforeMonth_thirteen] at hlast
  rw [daysBeforeYear_succ d.year_pos, ordinal]
  omega

theorem ordinal_lt_of_year (h : a.year < b.year) : a.ordinal < b.ordinal := by
  have hend := a.ordinal_le_next_year
  have hstart : daysBeforeYear (a.year + 1) ≤ daysBeforeYear b.year := daysBeforeYear_mono h
  have hday := b.day_pos
  have hb : b.ordinal = daysBeforeYear b.year + daysBeforeMonth b.year b.month + b.day := rfl
  omega

theorem ordinal_lt_of_month (hyear : a.year = b.year) (h : a.month < b.month) :
    a.ordinal < b.ordinal := by
  have hend := a.day_lt_next_month
  have hstart : daysBeforeMonth a.year (a.month + 1) ≤ daysBeforeMonth a.year b.month :=
    daysBeforeMonth_mono a.year h
  have hday := b.day_pos
  rw [ordinal, ordinal, ← hyear]
  omega

theorem ordinal_lt_of_day (hyear : a.year = b.year) (hmonth : a.month = b.month)
    (h : a.day < b.day) : a.ordinal < b.ordinal := by
  rw [ordinal, ordinal, hyear, hmonth]
  omega

end Ordinal

section Order

variable {a b : DateTime}

theorem instant_lt (h : a < b) : a.instant < b.instant := by
  change a.fields < b.fields at h
  have hhour := a.hour_lt
  have hminute := a.minute_lt
  have hsecond := a.second_lt
  have hmicrosecond := a.microsecond_lt
  simp only [fields, List.cons_lt_cons_iff, List.not_lt_nil, and_false, or_false] at h
  have hdays : ∀ {x y : DateTime}, x.ordinal < y.ordinal → x.instant < y.instant := by
    intro x y hlt
    have hhour := x.hour_lt
    have hminute := x.minute_lt
    have hsecond := x.second_lt
    have hmicrosecond := x.microsecond_lt
    simp only [instant]
    omega
  rcases h with hyear | ⟨hyear, hmonth | ⟨hmonth, hday | ⟨hday, h⟩⟩⟩
  · exact hdays (ordinal_lt_of_year hyear)
  · exact hdays (ordinal_lt_of_month hyear hmonth)
  · exact hdays (ordinal_lt_of_day hyear hmonth hday)
  · have hsame : a.ordinal = b.ordinal := by rw [ordinal, ordinal, hyear, hmonth, hday]
    simp only [instant, hsame]
    omega

theorem padded_segment {w m n : Nat} (hw : 0 < w) (hn : n < 10 ^ w) (h : m < n)
    (rest rest' : List Char) : padded w m ++ rest < padded w n ++ rest' := by
  have hlen : (padded w m).length = (padded w n).length := by
    rw [length_padded hw (h.trans hn), length_padded hw hn]
  exact append_lt_append hlen (padded_lt hw h hn) rest rest'

-- A whole second has no fraction: there the offset's sign stands against a dot.
theorem fraction_lt {m n : Nat} (h : m < n) (hn : n < 10 ^ 6) : fraction m < fraction n := by
  have hpos : n ≠ 0 := by omega
  rw [fraction, fraction, if_neg hpos]
  by_cases hm : m = 0
  · rw [if_pos hm]
    exact List.cons_lt_cons_iff.mpr (.inl (by decide))
  · rw [if_neg hm]
    exact List.cons_lt_cons_iff.mpr (.inr ⟨rfl, padded_segment (by decide) hn h _ _⟩)

theorem separated_lt {c : Char} {l l' : List Char} (h : l < l') : c :: l < c :: l' :=
  List.cons_lt_cons_iff.mpr (.inr ⟨rfl, h⟩)

theorem isoformat_lt (h : a < b) : a.isoformat < b.isoformat := by
  change a.fields < b.fields at h
  have hday : b.day < 10 ^ 2 := by
    have hle := b.day_le
    have hmonth : daysInMonth b.year b.month ≤ 31 := by
      unfold daysInMonth
      split_ifs <;> omega
    omega
  have hmonth : b.month < 10 ^ 2 := by have := b.month_le; omega
  have hhour : b.hour < 10 ^ 2 := by have := b.hour_lt; omega
  have hminute : b.minute < 10 ^ 2 := by have := b.minute_lt; omega
  have hsecond : b.second < 10 ^ 2 := by have := b.second_lt; omega
  simp only [fields, List.cons_lt_cons_iff, List.not_lt_nil, and_false, or_false] at h
  rw [isoformat, isoformat, String.lt_iff_toList_lt, String.toList_ofList, String.toList_ofList,
    clock, clock]
  rcases h with h | ⟨hyear, h⟩
  · exact padded_segment (by decide) b.year_lt h _ _
  rw [hyear]
  refine List.append_left_lt (separated_lt ?_)
  rcases h with h | ⟨hsame, h⟩
  · exact padded_segment (by decide) hmonth h _ _
  rw [hsame]
  refine List.append_left_lt (separated_lt ?_)
  rcases h with h | ⟨hsame, h⟩
  · exact padded_segment (by decide) hday h _ _
  rw [hsame]
  refine List.append_left_lt (separated_lt ?_)
  rcases h with h | ⟨hsame, h⟩
  · exact padded_segment (by decide) hhour h _ _
  rw [hsame]
  refine List.append_left_lt (separated_lt ?_)
  rcases h with h | ⟨hsame, h⟩
  · exact padded_segment (by decide) hminute h _ _
  rw [hsame]
  refine List.append_left_lt (separated_lt ?_)
  rcases h with h | ⟨hsame, h⟩
  · exact padded_segment (by decide) hsecond h _ _
  rw [hsame]
  exact List.append_left_lt (fraction_lt h b.microsecond_lt)

theorem cases_lt (a b : DateTime) : a < b ∨ a = b ∨ b < a := by
  rcases lt_trichotomy a.fields b.fields with hlt | heq | hgt
  · exact .inl hlt
  · exact .inr (.inl (fields_injective heq))
  · exact .inr (.inr hgt)

theorem instant_lt_iff : a.instant < b.instant ↔ a < b := by
  refine ⟨fun h => ?_, instant_lt⟩
  rcases cases_lt a b with hlt | rfl | hgt
  · exact hlt
  · exact absurd h (lt_irrefl _)
  · exact absurd h (lt_asymm (instant_lt hgt))

theorem isoformat_lt_iff : a.isoformat < b.isoformat ↔ a < b := by
  refine ⟨fun h => ?_, isoformat_lt⟩
  rcases cases_lt a b with hlt | rfl | hgt
  · exact hlt
  · exact absurd h (lt_irrefl _)
  · exact absurd h (lt_asymm (isoformat_lt hgt))

end Order

end DateTime

end Text
