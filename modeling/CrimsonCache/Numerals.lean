import Mathlib.Data.Nat.Digits.Lemmas
import CrimsonCache.CString

/-!
Numerals as `printf` writes them and the strtol family reads them back.
-/

namespace CrimsonCache.Numerals

open CString

theorem digit_byte (digit : Nat) (small : digit < 10) :
    isdigit (UInt8.ofNat (48 + digit)) = true ∧ isspace (UInt8.ofNat (48 + digit)) = false ∧
      (UInt8.ofNat (48 + digit)).toNat - 48 = digit ∧ UInt8.ofNat (48 + digit) ≠ quote ∧
        UInt8.ofNat (48 + digit) ≠ 45 ∧ UInt8.ofNat (48 + digit) ≠ 43 ∧
          UInt8.ofNat (48 + digit) ≠ cr := by
  revert digit
  decide

/-- The digits of a numeral, most significant first. -/
theorem decimal_digits (n : Nat) (positive : 0 < n) :
    decimal n = (Nat.digits 10 n).reverse.map fun digit => UInt8.ofNat (48 + digit) := by
  simp [decimal, Nat.pos_iff_ne_zero.mp positive]

theorem decimal_value (n : Nat) : digitsValue (decimal n) = n := by
  have value : ∀ digits : List Nat, (∀ digit ∈ digits, digit < 10) →
      digitsValue (digits.reverse.map fun digit => UInt8.ofNat (48 + digit)) =
        Nat.ofDigits 10 digits := by
    intro digits small
    induction digits with
    | nil => rfl
    | cons digit rest ih =>
        have tail := ih fun other member => small other (List.mem_cons_of_mem digit member)
        have first := (digit_byte digit (small digit List.mem_cons_self)).2.2.1
        simp only [digitsValue, List.reverse_cons, List.map_append, List.map_cons, List.map_nil,
          List.foldl_append, List.foldl_cons, List.foldl_nil, Nat.ofDigits_cons] at tail ⊢
        rw [tail, first]
        omega
  rcases Nat.eq_zero_or_pos n with rfl | positive
  · rfl
  · rw [decimal_digits n positive, value _ fun digit => Nat.digits_lt_base (by decide),
      Nat.ofDigits_digits]

theorem decimal_bytes (n : Nat) : ∀ c ∈ decimal n, ∃ digit < 10, c = UInt8.ofNat (48 + digit) := by
  rcases Nat.eq_zero_or_pos n with rfl | positive
  · intro c member
    exact ⟨0, by decide, List.mem_singleton.mp member⟩
  · rw [decimal_digits n positive]
    intro c member
    obtain ⟨digit, inside, rfl⟩ := List.mem_map.mp member
    exact ⟨digit, Nat.digits_lt_base (by decide) (List.mem_reverse.mp inside), rfl⟩

theorem decimal_nonempty (n : Nat) : decimal n ≠ [] := by
  rcases Nat.eq_zero_or_pos n with rfl | positive
  · simp [decimal]
  · rw [decimal_digits n positive]
    have some : Nat.digits 10 n ≠ [] := Nat.digits_ne_nil_iff_ne_zero.mpr (by omega)
    simpa using some

theorem decimal_width (n width : Nat) (positive : 0 < width) (fits : n < 10 ^ width) :
    (decimal n).length ≤ width := by
  by_cases zero : n = 0
  · simp only [zero, decimal, ↓reduceIte, List.length_singleton]
    exact positive
  · rw [decimal_digits n (Nat.pos_of_ne_zero zero), List.length_map, List.length_reverse]
    exact (Nat.digits_length_le_iff (by decide) n).mpr fits

theorem decimal_length (n : Nat) (fits : n < 2 ^ 63) : (decimal n).length ≤ 19 :=
  decimal_width n 19 (by decide) (by omega)

theorem decimal_cr_free (n : Nat) : cr ∉ decimal n := by
  intro member
  obtain ⟨digit, small, same⟩ := decimal_bytes n cr member
  exact (digit_byte digit small).2.2.2.2.2.2 same.symm

theorem decimal_int_cr_free (n : Int) : cr ∉ decimalInt n := by
  simp only [decimalInt]
  split
  · rw [List.mem_cons]
    rintro (wrong | member)
    · exact absurd wrong (by decide)
    · exact decimal_cr_free _ member
  · exact decimal_cr_free _

/-- A number that fits a `long long` is read back. -/
theorem atoll_decimal_int (n : Int) (least : -2 ^ 63 ≤ n) (most : n < 2 ^ 63) :
    atoll (decimalInt n) = n := by
  have bytes := decimal_bytes n.natAbs
  have value := decimal_value n.natAbs
  have digits : (decimal n.natAbs).takeWhile isdigit = decimal n.natAbs := by
    apply List.takeWhile_eq_self_iff.mpr
    intro c member
    obtain ⟨digit, small, rfl⟩ := bytes c member
    exact (digit_byte digit small).1
  have some := decimal_nonempty n.natAbs
  by_cases negative : n < 0
  · have minus : isspace 45 = false := by decide
    simp only [atoll, decimalInt, negative, ↓reduceIte, strtoll, List.dropWhile_cons, minus,
      Bool.false_eq_true, digits, some, value]
    omega
  · cases shape : decimal n.natAbs with
    | nil => exact absurd shape some
    | cons c rest =>
        obtain ⟨digit, small, same⟩ := bytes c (by simp [shape])
        obtain ⟨-, blank, -, -, minus, plus, -⟩ := digit_byte digit small
        rw [← same] at blank minus plus
        rw [shape] at digits value
        have kept : (c :: rest).dropWhile isspace = c :: rest := by simp [blank]
        simp only [atoll, decimalInt, negative, ↓reduceIte, shape, strtoll, kept]
        split
        case h_1 same => exact absurd (List.cons.inj same).1 minus
        case h_2 same => exact absurd (List.cons.inj same).1 plus
        · rw [digits, if_neg (by simp), value]
          simp only [Bool.false_eq_true, ↓reduceIte]
          omega

theorem atol_decimal_int (n : Int) (least : -2 ^ 63 ≤ n) (most : n < 2 ^ 63) :
    atol (decimalInt n) = n := atoll_decimal_int n least most

theorem atol_decimal (n : Nat) (fits : n < 2 ^ 63) : atol (decimal n) = n := by
  have read := atol_decimal_int n (by omega) (by exact_mod_cast fits)
  have same : decimalInt n = decimal n := by
    simp only [decimalInt, Int.natAbs_natCast]
    exact if_neg (by omega)
  rwa [same] at read

section Parsing

def isNumber (digits : Bytes) : Bool := !digits.isEmpty && digits.all isdigit

/-- Whether there is a minus, and what follows the sign if there is one. -/
def sign (text : Bytes) : Bool × Bytes :=
  match text with
  | 45 :: rest => (true, rest)
  | 43 :: rest => (false, rest)
  | _ => (false, text)

def signed (negative : Bool) (magnitude : Int) : Int := if negative then -magnitude else magnitude

/-- The value of an optionally signed, nonempty decimal numeral. -/
def numeral (text : Bytes) : Option Int :=
  if isNumber (sign text).2 then some (signed (sign text).1 (digitsValue (sign text).2)) else none

/-- A value out of range is read as the bound next to it. -/
def saturated (value : Int) : Int := max (-2 ^ 63) (min (2 ^ 63 - 1) value)

theorem saturated_in_range (value : Int) (least : -2 ^ 63 ≤ value) (most : value < 2 ^ 63) :
    saturated value = value := by
  simp only [saturated]
  omega

theorem is_number_digits (digits : Bytes) :
    isNumber digits = true ↔ digits ≠ [] ∧ ∀ c ∈ digits, isdigit c = true := by
  simp [isNumber]

theorem decimal_number (n : Nat) : isNumber (decimal n) = true := by
  refine (is_number_digits _).mpr ⟨decimal_nonempty n, ?_⟩
  intro c member
  obtain ⟨digit, small, rfl⟩ := decimal_bytes n c member
  exact (digit_byte digit small).1

/-- What `%d` writes is the numeral of its argument. -/
theorem numeral_decimal_int (n : Int) : numeral (decimalInt n) = some n := by
  by_cases negative : n < 0
  · have split : sign (decimalInt n) = (true, decimal n.natAbs) := by
      simp [decimalInt, negative, sign]
    simp only [numeral, split, decimal_number, ↓reduceIte, signed, decimal_value, Option.some.injEq]
    omega
  · cases shape : decimal n.natAbs with
    | nil => exact absurd shape (decimal_nonempty _)
    | cons c rest =>
        obtain ⟨digit, small, same⟩ := decimal_bytes n.natAbs c (by simp [shape])
        obtain ⟨-, -, -, -, minus, plus, -⟩ := digit_byte digit small
        rw [← same] at minus plus
        have split : sign (decimalInt n) = (false, decimal n.natAbs) := by
          simp only [decimalInt, negative, ↓reduceIte, shape, sign]
          split
          case h_1 wrong => exact absurd (List.cons.inj wrong).1 minus
          case h_2 wrong => exact absurd (List.cons.inj wrong).1 plus
          case h_3 => rfl
        simp only [numeral, split, decimal_number, ↓reduceIte, signed, decimal_value,
          Bool.false_eq_true, Option.some.injEq]
        omega

theorem digit_solid (c : UInt8) (digit : isdigit c = true) : isspace c = false := by
  simp only [isdigit, Bool.and_eq_true, decide_eq_true_eq, UInt8.le_iff_toNat_le] at digit
  simp only [isspace, Bool.or_eq_false_iff, Bool.and_eq_false_iff, decide_eq_false_iff_not,
    ← UInt8.toNat_inj, UInt8.le_iff_toNat_le]
  simp only [UInt8.toNat_ofNat] at digit ⊢
  omega

/-- `strtoll` passes the whitespace and the sign, and reads the digits behind them. -/
theorem strtoll_sign (text : Bytes) :
    strtoll text =
      let (negative, number) := sign (text.dropWhile isspace)
      if number.takeWhile isdigit = [] then (0, text)
      else (saturated (signed negative (digitsValue (number.takeWhile isdigit))),
        number.dropWhile isdigit) := rfl

/-- A numeral is read to its end, also behind whitespace. -/
theorem strtoll_numeral (text : Bytes) (value : Int)
    (read : numeral (text.dropWhile isspace) = some value) :
    strtoll text = (saturated value, []) := by
  simp only [numeral] at read
  split at read
  case isFalse => cases read
  case isTrue number =>
    obtain ⟨some, all⟩ := (is_number_digits _).mp number
    have taken := List.takeWhile_eq_self_iff.mpr all
    have dropped := List.dropWhile_eq_nil_iff.mpr all
    simp only [strtoll_sign, taken, dropped, if_neg some, Option.some.inj read]

/-- Only an empty string and numerals are read to their end. -/
theorem strtoll_whole (text : Bytes) (whole : (strtoll text).2 = []) :
    text = [] ∨ ∃ value, numeral (text.dropWhile isspace) = some value := by
  simp only [strtoll_sign] at whole
  split at whole
  case isTrue => exact Or.inl whole
  case isFalse some =>
    have all := List.dropWhile_eq_nil_iff.mp whole
    have number : isNumber (sign (text.dropWhile isspace)).2 = true := by
      refine (is_number_digits _).mpr ⟨?_, all⟩
      intro empty
      exact some (by simp [empty])
    exact Or.inr ⟨_, if_pos number⟩

end Parsing

end CrimsonCache.Numerals
