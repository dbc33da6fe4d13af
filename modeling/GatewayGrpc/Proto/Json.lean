import GatewayGrpc.Proto.Messages

/-!
# The messages as `serde_json` writes them

The derived `Serialize` gives an object with the fields in declaration order and no white space:
strings escaped, integers in decimal, `Vec<u8>` as an array of numbers. The parsers read back what
is written; other spellings of the same JSON value are not needed.
-/

namespace GatewayGrpc.Proto.Json
open Library

def ascii (s : String) : Bytes := s.toByteArray.data.toList

def hexDigit (n : Nat) : UInt8 := UInt8.ofNat (if n < 10 then 48 + n else 87 + n)

def hexValue (b : UInt8) : Nat := if b.toNat < 58 then b.toNat - 48 else b.toNat - 87

def escapeLetter? (b : UInt8) : Option UInt8 :=
  if b = 0x22 then some 0x22
  else if b = 0x5C then some 0x5C
  else if b = 0x08 then some 0x62
  else if b = 0x09 then some 0x74
  else if b = 0x0A then some 0x6E
  else if b = 0x0C then some 0x66
  else if b = 0x0D then some 0x72
  else none

def unescapeLetter? (c : UInt8) : Option UInt8 :=
  if c = 0x22 then some 0x22
  else if c = 0x5C then some 0x5C
  else if c = 0x62 then some 0x08
  else if c = 0x74 then some 0x09
  else if c = 0x6E then some 0x0A
  else if c = 0x66 then some 0x0C
  else if c = 0x72 then some 0x0D
  else none

def escape (b : UInt8) : Bytes :=
  match escapeLetter? b with
  | some c => [0x5C, c]
  | none =>
      if b < 0x20 then [0x5C, 0x75, 0x30, 0x30, hexDigit (b.toNat / 16), hexDigit (b.toNat % 16)]
      else [b]

def readString : Bytes → Option (Bytes × Bytes)
  | [] => none
  | b :: bytes =>
      if b = 0x22 then some ([], bytes)
      else if b = 0x5C then
        match bytes with
        | [] => none
        | c :: bytes =>
            if c = 0x75 then
              match bytes with
              | _ :: _ :: high :: low :: bytes => do
                  let (text, rest) ← readString bytes
                  some (UInt8.ofNat (16 * hexValue high + hexValue low) :: text, rest)
              | _ => none
            else do
              let x ← unescapeLetter? c
              let (text, rest) ← readString bytes
              some (x :: text, rest)
      else do
        let (text, rest) ← readString bytes
        some (b :: text, rest)

theorem unescapeLetter?_escapeLetter? {b c : UInt8} (letter : escapeLetter? b = some c) :
    unescapeLetter? c = some b ∧ c ≠ 0x75 := by
  unfold escapeLetter? at letter
  split_ifs at letter <;> cases letter <;> subst_vars <;> decide

theorem hexValue_hexDigit : ∀ n < 16, hexValue (hexDigit n) = n := by decide

theorem readString_escape (b : UInt8) (bytes : Bytes) :
    readString (escape b ++ bytes) = (readString bytes).map fun p => (b :: p.1, p.2) := by
  unfold escape
  cases letter : escapeLetter? b with
  | some c =>
      obtain ⟨back, notU⟩ := unescapeLetter?_escapeLetter? letter
      rw [List.cons_append, readString.eq_def]
      cases h : readString bytes <;> simp [notU, back, h]
  | none =>
      dsimp only
      split_ifs with control
      · have value : UInt8.ofNat (16 * hexValue (hexDigit (b.toNat / 16)) +
            hexValue (hexDigit (b.toNat % 16))) = b := by
          have := b.toNat_lt
          rw [hexValue_hexDigit _ (by omega), hexValue_hexDigit _ (by omega), Nat.div_add_mod,
            UInt8.ofNat_toNat]
        rw [List.cons_append, readString.eq_def]
        cases h : readString bytes <;> simp [value, h]
      · have quote : b ≠ 0x22 := by
          rintro rfl
          cases letter
        have backslash : b ≠ 0x5C := by
          rintro rfl
          cases letter
        rw [List.cons_append, readString.eq_def]
        cases h : readString bytes <;> simp [quote, backslash, h]

def string : Format Bytes where
  encode := fun text => 0x22 :: text.flatMap escape ++ [0x22]
  parse := fun bytes => do
    let bytes ← Format.stripPrefix [0x22] bytes
    readString bytes
  parse_encode := fun text rest => by
    have body : readString (text.flatMap escape ++ (0x22 :: rest)) = some (text, rest) := by
      induction text with
      | nil =>
          rw [readString.eq_def]
          simp
      | cons b text ih =>
          rw [List.flatMap_cons, List.append_assoc, readString_escape, ih]
          rfl
    simp [Format.stripPrefix, body]

def readSign : Bytes → Int × Bytes
  | [] => (1, [])
  | b :: bytes => if b = 0x2D then (-1, bytes) else (1, b :: bytes)

theorem readSign_decimal (n : Nat) (rest : Bytes) :
    readSign (decimal n ++ rest) = (1, decimal n ++ rest) := by
  obtain ⟨d, tail, digits⟩ : ∃ d tail, decimal n = d :: tail :=
    List.exists_cons_of_ne_nil (decimal_ne_nil n)
  have : d ≠ 0x2D := by
    have := decimal_digit n d (by simp [digits])
    rintro rfl
    revert this
    decide
  simp [digits, readSign, this]

def integer (stop : UInt8) (stops : digit? stop = none) : Format Int where
  encode := fun n => (if n < 0 then [0x2D] else []) ++ decimal n.natAbs ++ [stop]
  parse := fun bytes => do
    let (sign, bytes) := readSign bytes
    let (n, bytes) := readDigits 0 bytes
    let bytes ← Format.stripPrefix [stop] bytes
    some (sign * n, bytes)
  parse_encode := fun n rest => by
    by_cases negative : n < 0
    · simp [negative, readSign, readDigits_decimal _ stops, Format.stripPrefix,
        abs_of_neg negative]
    · simp only [negative, if_false, List.nil_append, List.append_assoc, List.singleton_append,
        readSign_decimal, readDigits_decimal _ stops]
      simp [Format.stripPrefix]
      omega

def readNumbers : Nat → Bytes → Option (List Nat × Bytes)
  | _, [] => none
  | n, b :: bytes =>
      match digit? b with
      | some d => readNumbers (10 * n + d) bytes
      | none =>
          if b = 0x2C then do
            let (numbers, rest) ← readNumbers 0 bytes
            some (n :: numbers, rest)
          else if b = 0x5D then some ([n], bytes) else none

theorem readNumbers_readDigits (n : Nat) (bytes : Bytes) :
    readNumbers n bytes =
      if (readDigits n bytes).2.isEmpty then none
      else readNumbers (readDigits n bytes).1 (readDigits n bytes).2 := by
  induction bytes generalizing n with
  | nil => rfl
  | cons b bytes ih =>
      cases digit : digit? b with
      | some d =>
          rw [readNumbers, digit]
          dsimp only
          rw [ih, readDigits, digit]
      | none => simp [readDigits, digit]

theorem readNumbers_decimal (n : Nat) {stop : UInt8} (stops : digit? stop = none)
    (rest : Bytes) :
    readNumbers 0 (decimal n ++ stop :: rest) = readNumbers n (stop :: rest) := by
  rw [readNumbers_readDigits, readDigits_decimal n stops]
  rfl

def encodeTail (numbers : List Nat) : Bytes := numbers.flatMap fun n => 0x2C :: decimal n

theorem readNumbers_encodeTail (n : Nat) (numbers : List Nat) (rest : Bytes) :
    readNumbers 0 (decimal n ++ (encodeTail numbers ++ 0x5D :: rest)) =
      some (n :: numbers, rest) := by
  have comma : digit? 0x2C = none := by decide
  have bracket : digit? 0x5D = none := by decide
  induction numbers generalizing n with
  | nil =>
      rw [encodeTail, List.flatMap_nil, List.nil_append, readNumbers_decimal n bracket]
      simp [readNumbers, bracket]
  | cons m numbers ih =>
      rw [encodeTail, List.flatMap_cons, List.append_assoc, List.cons_append,
        readNumbers_decimal n comma, readNumbers, comma]
      dsimp only
      rw [if_pos rfl, ← encodeTail, ih]
      rfl

def array : Format (List Nat) where
  encode
    | [] => [0x5B, 0x5D]
    | n :: numbers => 0x5B :: decimal n ++ encodeTail numbers ++ [0x5D]
  parse := fun bytes => do
    let bytes ← Format.stripPrefix [0x5B] bytes
    match Format.stripPrefix [0x5D] bytes with
    | some rest => some ([], rest)
    | none => readNumbers 0 bytes
  parse_encode := fun numbers rest => by
    cases numbers with
    | nil => simp [Format.stripPrefix]
    | cons n numbers =>
        obtain ⟨d, tail, digits⟩ := List.exists_cons_of_ne_nil (decimal_ne_nil n)
        have notBracket : (0x5D : UInt8) ≠ d := by
          have := decimal_digit n d (by simp [digits])
          rintro rfl
          revert this
          decide
        have body := readNumbers_encodeTail n numbers rest
        simp only [digits, List.cons_append] at body
        simp [Format.stripPrefix, digits, notBracket, body]

/-! ## The fields -/

def text : Format Text :=
  string.map (fun s => s.utf8) Text.fromUtf8? Text.fromUtf8?_utf8

def int64 : Format Int64 :=
  (integer 0x2C (by decide)).map (fun n => n.toInt) (fun n => some (Int64.ofInt n)) (by simp)

def bytes : Format ByteVec :=
  array.map (fun b => b.val.map UInt8.toNat)
    (fun numbers =>
      let bytes := numbers.map UInt8.ofNat
      if h : bytes.length < 2 ^ 63 then some ⟨bytes, h⟩ else none)
    (fun b => by
      have same : (b.val.map UInt8.toNat).map UInt8.ofNat = b.val := by
        simp [List.map_map, Function.comp_def]
      dsimp only
      rw [dif_pos (by rw [same]; exact b.property)]
      simp only [same])

def digitCount (n : Int) : Nat := (if n < 0 then 1 else 0) + (decimal n.natAbs).length

@[simp] theorem length_int64 (n : Int64) : (int64.encode n).length = digitCount n.toInt + 1 := by
  simp only [int64, Format.map, integer, digitCount, List.length_append, List.length_singleton]
  split <;> rfl

@[simp] theorem length_after {α : Type} (text : Bytes) (f : Format α) (a : α) :
    ((f.after text).encode a).length = text.length + (f.encode a).length := by
  simp [Format.after]

def request : Format EchoRequest :=
  (((text.after (ascii "\x7b\"message\":")).pair
    ((int64.after (ascii ",\"timestamp_ns\":")).pair
      ((bytes.after (ascii "\"payload\":")).before (ascii "\x7d"))))).map
    (fun r => (r.message, r.timestampNs, r.payload)) (fun p => some ⟨p.1, p.2.1, p.2.2⟩)
    EchoRequest.some_eta

def response : Format EchoResponse :=
  (((text.after (ascii "\x7b\"message\":")).pair
    ((int64.after (ascii ",\"timestamp_ns\":")).pair
      ((int64.after (ascii "\"processing_time_us\":")).pair
        ((bytes.after (ascii "\"payload\":")).before (ascii "\x7d")))))).map
    (fun r => (r.message, r.timestampNs, r.processingTimeUs, r.payload))
    (fun p => some ⟨p.1, p.2.1, p.2.2.1, p.2.2.2⟩) EchoResponse.some_eta

theorem request_ne_nil (r : EchoRequest) : request.encode r ≠ [] := by
  intro empty
  have := congrArg List.length empty
  simp [request, Format.map, Format.pair] at this

theorem response_ne_nil (r : EchoResponse) : response.encode r ≠ [] := by
  intro empty
  have := congrArg List.length empty
  simp [response, Format.map, Format.pair] at this

def requestCodec : Codec EchoRequest := request.toExactCodec request_ne_nil

def responseCodec : Codec EchoResponse := response.toExactCodec response_ne_nil

/-- An answer is longer than its request by `"processing_time_us":`, that number and a comma, and
by what its time stamp has more digits. -/
theorem length_responseCodec (r : EchoRequest) (ts pt : Int64) :
    (responseCodec.encode (r.echo ts pt)).length + digitCount r.timestampNs.toInt =
      (requestCodec.encode r).length + digitCount ts.toInt + digitCount pt.toInt + 22 := by
  have key : (ascii "\"processing_time_us\":").length = 21 := rfl
  simp only [responseCodec, requestCodec, Format.toExactCodec, request, response, Format.map,
    Format.pair, EchoRequest.echo, List.length_append, length_after, length_int64, key]
  omega

end GatewayGrpc.Proto.Json
