import Mathlib.Algebra.BigOperators.Group.List.Basic
import Mathlib.Algebra.Order.Ring.Nat
import Mathlib.Tactic.Common

/-!
# Lossy UTF-8

The text of a byte string that need not be UTF-8: each sequence of bytes that begins no character is
replaced by U+FFFD, where a sequence is as long as it could still have become a character.
-/

namespace GatewayGrpc.Library

def continues (c : UInt8) : Bool := 0x80 ≤ c ∧ c ≤ 0xBF

def startsThree (b c : UInt8) : Bool :=
  (b = 0xE0 ∧ 0xA0 ≤ c ∧ c ≤ 0xBF) ∨ (0xE1 ≤ b ∧ b ≤ 0xEC ∧ continues c) ∨
    (b = 0xED ∧ 0x80 ≤ c ∧ c ≤ 0x9F) ∨ (0xEE ≤ b ∧ b ≤ 0xEF ∧ continues c)

def startsFour (b c : UInt8) : Bool :=
  (b = 0xF0 ∧ 0x90 ≤ c ∧ c ≤ 0xBF) ∨ (0xF1 ≤ b ∧ b ≤ 0xF3 ∧ continues c) ∨
    (b = 0xF4 ∧ 0x80 ≤ c ∧ c ≤ 0x8F)

/-- The length of the sequence to replace, where no character begins. -/
def brokenLength : List UInt8 → Nat
  | b :: c :: d :: _ =>
      if startsThree b c then 2
      else if startsFour b c then if continues d then 3 else 2
      else 1
  | [b, c] => if startsThree b c ∨ startsFour b c then 2 else 1
  | _ => 1

def nextChar (bytes : List UInt8) : Char × Nat :=
  match (ByteArray.mk bytes.toArray).utf8DecodeChar? 0 with
  | some c => (c, c.utf8Size)
  | none => (Char.ofNat 0xFFFD, brokenLength bytes)

/-- The characters of what follows the first `skip` bytes. -/
def lossyChars : Nat → List UInt8 → List Char
  | _, [] => []
  | skip + 1, _ :: bytes => lossyChars skip bytes
  | 0, b :: bytes => (nextChar (b :: bytes)).1 :: lossyChars ((nextChar (b :: bytes)).2 - 1) bytes

def fromUtf8Lossy (bytes : List UInt8) : String := String.ofList (lossyChars 0 bytes)

theorem nextChar_of_encoded (c : Char) (rest : List UInt8) :
    nextChar (String.utf8EncodeChar c ++ rest) = (c, c.utf8Size) := by
  have decoded : (ByteArray.mk (String.utf8EncodeChar c ++ rest).toArray).utf8DecodeChar? 0 =
      some c := by
    have split : ByteArray.mk (String.utf8EncodeChar c ++ rest).toArray =
        (String.utf8EncodeChar c).toByteArray ++ rest.toByteArray := by
      rw [← List.toByteArray_append]
      ext1
      simp
    rw [split]
    exact ByteArray.utf8DecodeChar?_utf8EncodeChar_append
  simp only [nextChar, decoded]

theorem lossyChars_skip (front rest : List UInt8) :
    lossyChars front.length (front ++ rest) = lossyChars 0 rest := by
  induction front with
  | nil => rfl
  | cons b front ih => exact ih

theorem lossyChars_encoded (c : Char) (rest : List UInt8) :
    lossyChars 0 (String.utf8EncodeChar c ++ rest) = c :: lossyChars 0 rest := by
  have size := String.length_utf8EncodeChar c
  have next := nextChar_of_encoded c rest
  cases encoded : String.utf8EncodeChar c with
  | nil =>
      have := c.utf8Size_pos
      rw [encoded, List.length_nil] at size
      omega
  | cons b front =>
      rw [encoded, List.length_cons] at size
      rw [encoded, List.cons_append] at next
      rw [List.cons_append, lossyChars, next, ← size]
      exact congrArg (c :: ·) (lossyChars_skip front rest)

theorem lossyChars_utf8 (chars : List Char) :
    lossyChars 0 (chars.flatMap String.utf8EncodeChar) = chars := by
  induction chars with
  | nil => rfl
  | cons c chars ih => rw [List.flatMap_cons, lossyChars_encoded, ih]

theorem fromUtf8Lossy_utf8 (s : String) : fromUtf8Lossy s.toByteArray.data.toList = s := by
  have bytes : s.toByteArray.data.toList = s.toList.flatMap String.utf8EncodeChar := by
    conv => lhs; rw [← String.ofList_toList (s := s)]
    rw [String.toByteArray_ofList]
    exact List.toList_data_toByteArray
  rw [fromUtf8Lossy, bytes, lossyChars_utf8, String.ofList_toList]

theorem brokenLength_pos (bytes : List UInt8) : 0 < brokenLength bytes := by
  unfold brokenLength
  split <;> (try split_ifs) <;> decide

theorem brokenLength_le {bytes : List UInt8} (nonempty : bytes ≠ []) :
    brokenLength bytes ≤ bytes.length := by
  unfold brokenLength
  split
  · simp only [List.length_cons]
    split_ifs <;> omega
  · simp only [List.length_cons, List.length_nil]
    split_ifs <;> omega
  · exact List.length_pos_iff.mpr nonempty

theorem nextChar_size {bytes : List UInt8} (nonempty : bytes ≠ []) :
    0 < (nextChar bytes).2 ∧ (nextChar bytes).2 ≤ bytes.length ∧
      (nextChar bytes).1.utf8Size ≤ 3 * (nextChar bytes).2 := by
  unfold nextChar
  split
  · rename_i c decoded
    have inside := ByteArray.le_size_of_utf8DecodeChar?_eq_some decoded
    have size : (ByteArray.mk bytes.toArray).size = bytes.length := rfl
    exact ⟨c.utf8Size_pos, by omega, by dsimp only; omega⟩
  · have := brokenLength_pos bytes
    have replacement : (Char.ofNat 0xFFFD).utf8Size = 3 := by decide
    exact ⟨this, brokenLength_le nonempty, by dsimp only; omega⟩

theorem lossyChars_size (skip : Nat) (bytes : List UInt8) :
    ((lossyChars skip bytes).map Char.utf8Size).sum ≤ 3 * (bytes.length - skip) := by
  induction bytes generalizing skip with
  | nil => cases skip <;> simp [lossyChars]
  | cons b bytes ih =>
      cases skip with
      | succ skip =>
          rw [lossyChars, List.length_cons, Nat.add_sub_add_right]
          exact ih skip
      | zero =>
          obtain ⟨positive, inside, size⟩ := nextChar_size (List.cons_ne_nil b bytes)
          have later := ih ((nextChar (b :: bytes)).2 - 1)
          rw [lossyChars, List.map_cons, List.sum_cons, List.length_cons]
          rw [List.length_cons] at inside
          omega

theorem fromUtf8Lossy_size (bytes : List UInt8) :
    (fromUtf8Lossy bytes).utf8ByteSize ≤ 3 * bytes.length := by
  have size : (fromUtf8Lossy bytes).utf8ByteSize =
      ((lossyChars 0 bytes).map Char.utf8Size).sum := by
    change (String.ofList (lossyChars 0 bytes)).toByteArray.size = _
    rw [String.toByteArray_ofList, List.utf8Encode, List.size_toByteArray, List.length_flatMap]
    exact congrArg List.sum (List.map_congr_left fun c _ => String.length_utf8EncodeChar c)
  rw [size]
  exact lossyChars_size 0 bytes

end GatewayGrpc.Library
