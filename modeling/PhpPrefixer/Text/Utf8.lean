import PhpPrefixer.Text

/-!
# UTF-8

Offsets in a source count the bytes of its UTF-8 encoding. Encoding and strict decoding are
inverse to each other (`decode?_encode`, `encode_of_decode?`). Lossy decoding is for display: each
maximal piece that cannot be continued to a character is shown as one replacement character.
-/

namespace PhpPrefixer.Text

/-- The bytes of a text. -/
def encode (t : Text) : List UInt8 := t.flatMap String.utf8EncodeChar

/-- The text with these bytes, if they are an encoding. -/
def decode? (bytes : List UInt8) : Option Text :=
  bytes.toByteArray.utf8Decode?.map Array.toList

/-- The empty text has no bytes. -/
@[simp] theorem encode_nil : encode [] = [] := rfl

/-- A text is encoded one character after another. -/
@[simp] theorem encode_cons (c : Char) (t : Text) :
    encode (c :: t) = String.utf8EncodeChar c ++ encode t := by
  simp [encode]

/-- The bytes of two texts follow each other. -/
@[simp] theorem encode_append (t u : Text) : encode (t ++ u) = encode t ++ encode u := by
  simp [encode]

/-- What was encoded is read back. -/
theorem decode?_encode (t : Text) : decode? (encode t) = some t := by
  have h := @List.utf8Decode?_utf8Encode t
  simp only [List.utf8Encode] at h
  simp [decode?, encode, h]

/-- What is read has the bytes it was read from. -/
theorem encode_of_decode? {bytes : List UInt8} {t : Text} (h : decode? bytes = some t) :
    encode t = bytes := by
  obtain ⟨chars, hd, rfl⟩ := Option.map_eq_some_iff.mp h
  have hs : (bytes.toByteArray.utf8Decode?).isSome := by simp [hd]
  have he := @ByteArray.utf8Encode_get_utf8Decode? bytes.toByteArray hs
  simp only [hd, Option.get_some, List.utf8Encode] at he
  have hb := congrArg ByteArray.data he
  simpa [List.data_toByteArray, encode] using hb

/-- The number of bytes that may follow `lead` and the closed range of the first of them. -/
def continuation (lead : Nat) : Option (Nat × Nat × Nat) :=
  if 0xC2 ≤ lead && lead ≤ 0xDF then some (1, 0x80, 0xBF)
  else if lead = 0xE0 then some (2, 0xA0, 0xBF)
  else if lead = 0xED then some (2, 0x80, 0x9F)
  else if 0xE1 ≤ lead && lead ≤ 0xEF then some (2, 0x80, 0xBF)
  else if lead = 0xF0 then some (3, 0x90, 0xBF)
  else if 0xF1 ≤ lead && lead ≤ 0xF3 then some (3, 0x80, 0xBF)
  else if lead = 0xF4 then some (3, 0x80, 0x8F)
  else none

/-- How many bytes at the front continue a character, when the first lies between `low` and
`high` and there are at most `count` of them. -/
def continuedBy : (count low high : Nat) → List UInt8 → Nat
  | 0, _, _, _ => 0
  | _ + 1, _, _, [] => 0
  | count + 1, low, high, b :: bs =>
    if low ≤ b.toNat && b.toNat ≤ high then 1 + continuedBy count 0x80 0xBF bs else 0

/-- Shown in place of bytes that are no character. -/
def replacement : Char := Char.ofNat 0xFFFD

/-- Lossy decoding, after `skipped` bytes that were already read. -/
def decodeLossyFrom : (skipped : Nat) → List UInt8 → Text
  | _, [] => []
  | skipped + 1, _ :: bs => decodeLossyFrom skipped bs
  | 0, b :: bs =>
    match continuation b.toNat with
    | none => (if b < 0x80 then Char.ofNat b.toNat else replacement) :: decodeLossyFrom 0 bs
    | some (count, low, high) =>
      let read := continuedBy count low high bs
      let shown :=
        if read = count then (decode? (b :: bs.take count)).getD [replacement] else [replacement]
      shown ++ decodeLossyFrom read bs

/-- The text shown for any bytes. -/
def decodeLossy (bytes : List UInt8) : Text := decodeLossyFrom 0 bytes

end PhpPrefixer.Text
