import GatewayGrpc.Library.LittleEndian
import Mathlib.Data.List.Induction
import Mathlib.Data.Nat.Digits.Defs
import Mathlib.Tactic.Ring

/-!
# Byte formats

A `Format` writes values as bytes and parses them back off the front of any byte string that begins
with them, so that formats can be put one after the other. A `Codec` is for whole messages.
-/

namespace GatewayGrpc.Library

abbrev Bytes := List UInt8

structure Codec (α : Type) where
  encode : α → Bytes
  decode : Bytes → Option α
  decode_encode : ∀ a, decode (encode a) = some a
  encode_ne_nil : ∀ a, encode a ≠ []

attribute [simp] Codec.decode_encode

theorem Codec.map_encode_filterMap_decode {α : Type} (codec : Codec α) {l : List Bytes}
    (encoded : ∀ m ∈ l, ∃ a, m = codec.encode a) :
    (l.filterMap codec.decode).map codec.encode = l := by
  induction l with
  | nil => rfl
  | cons m l ih =>
      obtain ⟨a, rfl⟩ := encoded m (by simp)
      rw [List.filterMap_cons_some (codec.decode_encode a), List.map_cons,
        ih fun m member => encoded m (by simp [member])]

structure Format (α : Type) where
  encode : α → Bytes
  parse : Bytes → Option (α × Bytes)
  parse_encode : ∀ a rest, parse (encode a ++ rest) = some (a, rest)

namespace Format
variable {α β : Type}

def toCodec (f : Format α) (nonempty : ∀ a, f.encode a ≠ []) : Codec α where
  encode := f.encode
  decode := fun bytes => (f.parse bytes).map Prod.fst
  decode_encode := fun a => by
    have := f.parse_encode a []
    rw [List.append_nil] at this
    simp [this]
  encode_ne_nil := nonempty

def toExactCodec (f : Format α) (nonempty : ∀ a, f.encode a ≠ []) : Codec α where
  encode := f.encode
  decode := fun bytes => do
    let (a, rest) ← f.parse bytes
    if rest.isEmpty then some a else none
  decode_encode := fun a => by
    have := f.parse_encode a []
    rw [List.append_nil] at this
    simp [this]
  encode_ne_nil := nonempty

def pair (f : Format α) (g : Format β) : Format (α × β) where
  encode := fun p => f.encode p.1 ++ g.encode p.2
  parse := fun bytes => do
    let (a, bytes) ← f.parse bytes
    let (b, bytes) ← g.parse bytes
    some ((a, b), bytes)
  parse_encode := fun p rest => by
    simp [List.append_assoc, f.parse_encode, g.parse_encode]

/-- The values `b` that `write` expresses in another format and `read` gives back. -/
def map (f : Format α) (write : β → α) (read : α → Option β)
    (read_write : ∀ b, read (write b) = some b) : Format β where
  encode := fun b => f.encode (write b)
  parse := fun bytes => do
    let (a, bytes) ← f.parse bytes
    let b ← read a
    some (b, bytes)
  parse_encode := fun b rest => by
    simp [f.parse_encode, read_write]

def stripPrefix : Bytes → Bytes → Option Bytes
  | [], bytes => some bytes
  | _ :: _, [] => none
  | x :: text, b :: bytes => if x = b then stripPrefix text bytes else none

theorem stripPrefix_append (text rest : Bytes) : stripPrefix text (text ++ rest) = some rest := by
  induction text with
  | nil => rfl
  | cons x text ih => simp [stripPrefix, ih]

def after (text : Bytes) (f : Format α) : Format α where
  encode := fun a => text ++ f.encode a
  parse := fun bytes => do
    let bytes ← stripPrefix text bytes
    f.parse bytes
  parse_encode := fun a rest => by
    simp [List.append_assoc, stripPrefix_append, f.parse_encode]

def before (f : Format α) (text : Bytes) : Format α where
  encode := fun a => f.encode a ++ text
  parse := fun bytes => do
    let (a, bytes) ← f.parse bytes
    let bytes ← stripPrefix text bytes
    some (a, bytes)
  parse_encode := fun a rest => by
    simp [List.append_assoc, f.parse_encode, stripPrefix_append]

def splitAt? (n : Nat) (bytes : Bytes) : Option (Bytes × Bytes) :=
  if n ≤ bytes.length then some (bytes.take n, bytes.drop n) else none

theorem splitAt?_append {text : Bytes} {n : Nat} (len : text.length = n) (rest : Bytes) :
    splitAt? n (text ++ rest) = some (text, rest) := by
  subst len
  simp [splitAt?]

def littleEndian (width : Nat) : Format { n : Nat // n < 256 ^ width } where
  encode := fun n => toLeBytes width n
  parse := fun bytes => do
    let (head, bytes) ← splitAt? width bytes
    let n := fromLeBytes head
    if h : n < 256 ^ width then some (⟨n, h⟩, bytes) else none
  parse_encode := fun n rest => by
    simp [splitAt?_append, fromLeBytes_toLeBytes_of_lt n.property, n.property]

def counted (width : Nat) : Format { bytes : Bytes // bytes.length < 256 ^ width } where
  encode := fun b => toLeBytes width b.val.length ++ b.val
  parse := fun bytes => do
    let (n, bytes) ← (littleEndian width).parse bytes
    let (head, bytes) ← splitAt? n bytes
    if h : head.length < 256 ^ width then some (⟨head, h⟩, bytes) else none
  parse_encode := fun b rest => by
    have number : (littleEndian width).parse (toLeBytes width b.val.length ++ (b.val ++ rest)) =
        some (⟨b.val.length, b.property⟩, b.val ++ rest) :=
      (littleEndian width).parse_encode ⟨b.val.length, b.property⟩ _
    simp [List.append_assoc, number, splitAt?_append, b.property]

end Format

/-! ## Decimal numbers -/

def decimal (n : Nat) : Bytes :=
  if n = 0 then [48] else (Nat.digits 10 n).reverse.map fun d => UInt8.ofNat (48 + d)

def digit? (b : UInt8) : Option Nat :=
  if 48 ≤ b.toNat ∧ b.toNat ≤ 57 then some (b.toNat - 48) else none

def readDigits : Nat → Bytes → Nat × Bytes
  | n, [] => (n, [])
  | n, b :: bytes =>
      match digit? b with
      | some d => readDigits (10 * n + d) bytes
      | none => (n, b :: bytes)

theorem digit?_ofNat {d : Nat} (small : d < 10) : digit? (UInt8.ofNat (48 + d)) = some d := by
  have value : (UInt8.ofNat (48 + d)).toNat = 48 + d := by
    rw [UInt8.toNat_ofNat', Nat.mod_eq_of_lt (by omega)]
  unfold digit?
  rw [value, if_pos (by omega), Nat.add_sub_cancel_left]

theorem decimal_ne_nil (n : Nat) : decimal n ≠ [] := by
  unfold decimal
  split
  · simp
  · simpa [Nat.digits_eq_nil_iff_eq_zero]

theorem decimal_digit (n : Nat) (b : UInt8) (member : b ∈ decimal n) : (digit? b).isSome := by
  unfold decimal at member
  split at member
  · rw [List.mem_singleton.mp member]
    decide
  · obtain ⟨d, digit, rfl⟩ := List.mem_map.mp member
    rw [digit?_ofNat (Nat.digits_lt_base (by omega) (List.mem_reverse.mp digit))]
    rfl

theorem readDigits_append {digits : List Nat} (small : ∀ d ∈ digits, d < 10) (n : Nat)
    {stop : UInt8} (stops : digit? stop = none) (rest : Bytes) :
    readDigits n (digits.reverse.map (fun d => UInt8.ofNat (48 + d)) ++ stop :: rest) =
      (n * 10 ^ digits.length + Nat.ofDigits 10 digits, stop :: rest) := by
  induction digits using List.reverseRecOn generalizing n with
  | nil => simp [readDigits, stops]
  | append_singleton digits d ih =>
      have first : digit? (UInt8.ofNat (48 + d)) = some d := digit?_ofNat (small d (by simp))
      rw [List.reverse_append, List.reverse_singleton, List.singleton_append, List.map_cons,
        List.cons_append, readDigits, first]
      dsimp only
      rw [ih (fun x member => small x (by simp [member])), Nat.ofDigits_append,
        Nat.ofDigits_singleton, List.length_append, List.length_singleton, Nat.pow_succ]
      congr 1
      ring

theorem readDigits_decimal (n : Nat) {stop : UInt8} (stops : digit? stop = none) (rest : Bytes) :
    readDigits 0 (decimal n ++ stop :: rest) = (n, stop :: rest) := by
  unfold decimal
  split
  · subst_vars
    have zero : digit? 48 = some 0 := by decide
    simp [readDigits, zero, stops]
  · rw [readDigits_append (fun d member => Nat.digits_lt_base (by omega) member) 0 stops,
      Nat.zero_mul, Nat.zero_add, Nat.ofDigits_digits]

end GatewayGrpc.Library
