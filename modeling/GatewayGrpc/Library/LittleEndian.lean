import Mathlib.Data.Nat.ModEq
import Mathlib.Tactic.Common

/-!
# Little-endian integers

A natural number as `width` bytes, least significant first, and back.
-/

namespace GatewayGrpc.Library

def toLeBytes : Nat → Nat → List UInt8
  | 0, _ => []
  | width + 1, n => UInt8.ofNat n :: toLeBytes width (n / 256)

def fromLeBytes : List UInt8 → Nat
  | [] => 0
  | b :: bytes => b.toNat + 256 * fromLeBytes bytes

@[simp] theorem length_toLeBytes (width n : Nat) : (toLeBytes width n).length = width := by
  induction width generalizing n with
  | zero => rfl
  | succ width ih => simp [toLeBytes, ih]

theorem fromLeBytes_toLeBytes (width n : Nat) :
    fromLeBytes (toLeBytes width n) = n % 256 ^ width := by
  induction width generalizing n with
  | zero => simp [toLeBytes, fromLeBytes, Nat.mod_one]
  | succ width ih =>
      have low : (UInt8.ofNat n).toNat = n % 256 := by simp
      rw [toLeBytes, fromLeBytes, ih, low, Nat.pow_succ', Nat.mod_mul]

theorem fromLeBytes_toLeBytes_of_lt {width n : Nat} (small : n < 256 ^ width) :
    fromLeBytes (toLeBytes width n) = n := by
  rw [fromLeBytes_toLeBytes, Nat.mod_eq_of_lt small]

theorem fromLeBytes_lt (bytes : List UInt8) : fromLeBytes bytes < 256 ^ bytes.length := by
  induction bytes with
  | nil => simp [fromLeBytes]
  | cons b bytes ih =>
      have := b.toNat_lt
      simp only [fromLeBytes, List.length_cons, Nat.pow_succ]
      omega

end GatewayGrpc.Library
