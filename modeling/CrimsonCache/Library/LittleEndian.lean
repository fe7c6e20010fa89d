import Mathlib.Algebra.Group.Nat.Defs
import Mathlib.Data.List.Basic

/-!
Fixed-width little-endian numbers and reads of a known length from the front of
a byte stream, with the law that a read takes back exactly what was written.
-/

namespace LittleEndian

def encode : Nat → Nat → List UInt8
  | 0, _ => []
  | width + 1, n => UInt8.ofNat n :: encode width (n / 256)

def decode : List UInt8 → Nat
  | [] => 0
  | byte :: rest => byte.toNat + 256 * decode rest

/-- The first `count` bytes, when there are that many. -/
def takeExact (count : Nat) (bytes : List UInt8) : Option (List UInt8 × List UInt8) :=
  if count ≤ bytes.length then some (bytes.take count, bytes.drop count) else none

@[simp] theorem length_encode (width n : Nat) : (encode width n).length = width := by
  induction width generalizing n with
  | zero => rfl
  | succ width ih => simp [encode, ih]

theorem decode_encode (width n : Nat) (bound : n < 256 ^ width) :
    decode (encode width n) = n := by
  induction width generalizing n with
  | zero => simp [decode, encode] at bound ⊢; exact bound.symm
  | succ width ih =>
      have quotient : n / 256 < 256 ^ width := by
        apply Nat.div_lt_of_lt_mul
        rwa [Nat.mul_comm, ← Nat.pow_succ]
      have digit : (UInt8.ofNat n).toNat = n % 256 := UInt8.toNat_ofNat'
      simp only [encode, decode, ih _ quotient, digit]
      omega

theorem decode_lt (bytes : List UInt8) : decode bytes < 256 ^ bytes.length := by
  induction bytes with
  | nil => simp [decode]
  | cons byte rest ih =>
      have digit := byte.toNat_lt
      simp only [decode, List.length_cons, Nat.pow_succ]
      omega

/-- Bytes are the encoding of their number in their width. -/
theorem encode_decode (bytes : List UInt8) : encode bytes.length (decode bytes) = bytes := by
  induction bytes with
  | nil => rfl
  | cons byte rest ih =>
      have digit := byte.toNat_lt
      have low : UInt8.ofNat (byte.toNat + 256 * decode rest) = byte := by
        rw [← UInt8.toNat_inj, UInt8.toNat_ofNat']
        omega
      have high : (byte.toNat + 256 * decode rest) / 256 = decode rest := by omega
      simp only [List.length_cons, decode, encode, low, high, ih]

/-- The greatest number of a width has all its bits set. -/
theorem decode_greatest (bytes : List UInt8) :
    decode bytes + 1 = 256 ^ bytes.length ↔ bytes = List.replicate bytes.length 255 := by
  induction bytes with
  | nil => simp [decode]
  | cons byte rest ih =>
      have digit := byte.toNat_lt
      have bound := decode_lt rest
      have top : byte.toNat = 255 ↔ byte = 255 := by
        rw [← UInt8.toNat_inj]
        rfl
      simp only [decode, List.length_cons, Nat.pow_succ, List.replicate_succ, List.cons.injEq, ← ih,
        ← top]
      omega

theorem takeExact_append (count : Nat) (front rest : List UInt8) (length : front.length = count) :
    takeExact count (front ++ rest) = some (front, rest) := by
  simp [takeExact, ← length]

theorem takeExact_some (count : Nat) (bytes front rest : List UInt8) :
    takeExact count bytes = some (front, rest) ↔ front.length = count ∧ bytes = front ++ rest := by
  constructor
  · intro taken
    simp only [takeExact] at taken
    split at taken
    case isFalse => cases taken
    case isTrue enough =>
      obtain ⟨rfl, rfl⟩ := Prod.mk.inj (Option.some.inj taken)
      exact ⟨List.length_take_of_le enough, (List.take_append_drop count bytes).symm⟩
  · rintro ⟨length, rfl⟩
    exact takeExact_append count front rest length

end LittleEndian
