import DrawFormula.Text.Basic

/-! # Text in bytes

The bytes of a text are those of UTF-8.  Decoding never fails: bytes that begin no character, and
the longest beginning of one that is not gone on with, each give one replacement character.
-/
namespace DrawFormula.Text

/-- The character that stands for bytes without a meaning. -/
def replacement : Char := '\ufffd'

/-- The bytes of a text. -/
def bytes (t : Text) : List UInt8 := t.flatMap String.utf8EncodeChar

/-- A character of which the first bytes are read. -/
structure OpenCharacter where
  /-- How many bytes are missing, less one. -/
  missing : Nat
  /-- The number that the bits so far make up. -/
  value : Nat
  /-- The least value of the next byte. -/
  low : Nat
  /-- The greatest value of the next byte. -/
  high : Nat

/-- What the first byte of a character begins; the bounds of the next byte leave out longer forms
than needed, surrogates, and numbers beyond the last code point. -/
def firstByte (b : Nat) : Char ⊕ OpenCharacter :=
  if b < 0x80 then .inl (Char.ofNat b)
  else if b < 0xc2 then .inl replacement
  else if b < 0xe0 then .inr ⟨0, b % 0x20, 0x80, 0xbf⟩
  else if b < 0xf0 then
    .inr ⟨1, b % 0x10, if b = 0xe0 then 0xa0 else 0x80, if b = 0xed then 0x9f else 0xbf⟩
  else if b < 0xf5 then
    .inr ⟨2, b % 0x08, if b = 0xf0 then 0x90 else 0x80, if b = 0xf4 then 0x8f else 0xbf⟩
  else .inl replacement

/-- The characters of bytes, after the first bytes of one. -/
def decodeFrom : Option OpenCharacter → List UInt8 → Text
  | none, [] => []
  | some _, [] => [replacement]
  | none, b :: rest =>
    match firstByte b.toNat with
    | .inl c => c :: decodeFrom none rest
    | .inr p => decodeFrom (some p) rest
  | some p, b :: rest =>
    if p.low ≤ b.toNat ∧ b.toNat ≤ p.high then
      let value := p.value * 0x40 + b.toNat % 0x40
      match p.missing with
      | 0 => Char.ofNat value :: decodeFrom none rest
      | n + 1 => decodeFrom (some ⟨n, value, 0x80, 0xbf⟩) rest
    else
      replacement :: match firstByte b.toNat with
        | .inl c => c :: decodeFrom none rest
        | .inr p => decodeFrom (some p) rest

/-- The characters of bytes. -/
def ofBytes (bs : List UInt8) : Text := decodeFrom none bs

end DrawFormula.Text
