import Mathlib.Data.List.TakeWhile
import Mathlib.Data.Nat.Digits.Defs

/-!
Byte strings as the C library reads them: strings end at their first NUL,
character classes are those of the C locale, and the numeric parsers follow
strtol on a 64-bit long, saturating instead of failing.
-/

namespace CrimsonCache.CString

abbrev Bytes := List UInt8

instance : LawfulBEq Bytes := inferInstance

def ascii (text : String) : Bytes := text.toList.map fun c => UInt8.ofNat c.toNat

def cr : UInt8 := 13
def lf : UInt8 := 10
def quote : UInt8 := 34
def backslash : UInt8 := 92
def crlf : Bytes := [cr, lf]

/-- The string a `char *` denotes: its bytes up to the first NUL. -/
def cstr (bytes : Bytes) : Bytes := bytes.takeWhile (· ≠ 0)

def strlen (bytes : Bytes) : Nat := (cstr bytes).length

def isspace (c : UInt8) : Bool := c = 32 || (9 ≤ c && c ≤ 13)

def isdigit (c : UInt8) : Bool := 48 ≤ c && c ≤ 57

def tolower (c : UInt8) : UInt8 := if 65 ≤ c && c ≤ 90 then c + 32 else c

/-- `my_strcasecmp(a, b) == 0`. -/
def strcaseeq (a b : Bytes) : Bool := a.map tolower = b.map tolower

/-- `snprintf` keeps one byte of the buffer for the terminator. -/
def snprintf (size : Nat) (text : Bytes) : Bytes := text.take (size - 1)

/-- `%zu`, `%lu` and the magnitude of `%d`. -/
def decimal (n : Nat) : Bytes :=
  if n = 0 then [48] else (Nat.digits 10 n).reverse.map fun d => UInt8.ofNat (48 + d)

def decimalInt (n : Int) : Bytes :=
  if n < 0 then 45 :: decimal n.natAbs else decimal n.natAbs

def digitsValue (digits : Bytes) : Nat :=
  digits.foldl (fun value c => value * 10 + (c.toNat - 48)) 0

/-- `strtoll(text, &end, 10)` with the bytes at `end`. -/
def strtoll (text : Bytes) : Int × Bytes :=
  let body := text.dropWhile isspace
  let (negative, number) := match body with
    | 45 :: rest => (true, rest)
    | 43 :: rest => (false, rest)
    | _ => (false, body)
  let digits := number.takeWhile isdigit
  if digits = [] then (0, text)
  else
    let magnitude : Int := digitsValue digits
    let value := if negative then -magnitude else magnitude
    (max (-2 ^ 63) (min (2 ^ 63 - 1) value), number.dropWhile isdigit)

def atoll (text : Bytes) : Int := (strtoll text).1

def atol (text : Bytes) : Int := (strtoll text).1

/-- `atoi` narrows the long it parsed to an int. -/
def atoi (text : Bytes) : Int := Int.bmod (strtoll text).1 (2 ^ 32)

/-- An integer stored in a `uint64_t` or a `size_t`. -/
def wrap64 (n : Int) : Nat := (n % 2 ^ 64).toNat

/-- The product of two `long long` values, wrapped to two's complement. -/
def mulLong (a b : Int) : Int := Int.bmod (a * b) (2 ^ 64)

theorem crlf_distinct : cr ≠ lf := by decide

theorem wrap64_lt (n : Int) : wrap64 n < 2 ^ 64 := by
  unfold wrap64
  omega

/-- A sum does not notice that the product wrapped to a `long long` first. -/
theorem wrap64_product (start count factor : Int) :
    wrap64 (start + mulLong count factor) = wrap64 (start + count * factor) := by
  have product : Int.bmod (count * factor) (2 ^ 64) % 2 ^ 64 = count * factor % 2 ^ 64 :=
    Int.bmod_emod
  have same : (start + mulLong count factor) % 2 ^ 64 = (start + count * factor) % 2 ^ 64 := by
    rw [mulLong, Int.add_emod, product, ← Int.add_emod]
  rw [wrap64, same, wrap64]

theorem cstr_nul_free (bytes : Bytes) : 0 ∉ cstr bytes := by
  intro member
  have kept := List.mem_takeWhile_imp member
  simp at kept

theorem cstr_of_nul_free (bytes : Bytes) (free : 0 ∉ bytes) : cstr bytes = bytes := by
  unfold cstr
  rw [List.takeWhile_eq_self_iff]
  intro c member
  have nonzero : c ≠ 0 := fun wrong => free (wrong ▸ member)
  simpa using nonzero

theorem cstr_length (bytes : Bytes) : (cstr bytes).length ≤ bytes.length :=
  (List.takeWhile_sublist _).length_le

end CrimsonCache.CString
