/-!
# Text from bytes

Bytes of unknown origin are read as UTF-8. `decodeLossy` reads any bytes: each longest start of a character
that goes wrong, and each byte that starts none, becomes one replacement character.
-/

namespace PlanReplay.Text

/-- The replacement character U+FFFD. -/
def replacementChar : Char := Char.ofNat 0xFFFD

/-- What the first byte of a character of several bytes announces: the number of bytes that follow, the
bounds of the next one, and the leading bits of the code point. -/
structure SequenceStart where
  tails : Nat
  low : Nat
  high : Nat
  bits : Nat

/-- The start of a character of two, three or four bytes. Overlong forms, surrogates and numbers above
the last code point are excluded by the bounds of the second byte. -/
def sequenceStart? (byte : Nat) : Option SequenceStart :=
  if 0xC2 ≤ byte && byte ≤ 0xDF then some ⟨1, 0x80, 0xBF, byte - 0xC0⟩
  else if byte == 0xE0 then some ⟨2, 0xA0, 0xBF, 0⟩
  else if byte == 0xED then some ⟨2, 0x80, 0x9F, 0xD⟩
  else if 0xE1 ≤ byte && byte ≤ 0xEF then some ⟨2, 0x80, 0xBF, byte - 0xE0⟩
  else if byte == 0xF0 then some ⟨3, 0x90, 0xBF, 0⟩
  else if 0xF1 ≤ byte && byte ≤ 0xF3 then some ⟨3, 0x80, 0xBF, byte - 0xF0⟩
  else if byte == 0xF4 then some ⟨3, 0x80, 0x8F, 4⟩
  else none

/-- Reads up to `tails` continuation bytes, the first within the bounds. Returns how many fit, and the
code point if all of them did. -/
def readTails : Nat → Nat → Nat → Nat → List Nat → Nat × Option Nat
  | 0, _, _, bits, _ => (0, some bits)
  | _ + 1, _, _, _, [] => (0, none)
  | tails + 1, low, high, bits, byte :: rest =>
    if low ≤ byte && byte ≤ high then
      let (used, code) := readTails tails 0x80 0xBF (bits * 64 + (byte - 0x80)) rest
      (used + 1, code)
    else
      (0, none)

/-- Reads bytes as UTF-8 with replacement; `skip` bytes were used by the character before. -/
def decodeFrom : Nat → List Nat → List Char
  | _, [] => []
  | skip + 1, _ :: rest => decodeFrom skip rest
  | 0, byte :: rest =>
    if byte < 0x80 then
      Char.ofNat byte :: decodeFrom 0 rest
    else
      match sequenceStart? byte with
      | none => replacementChar :: decodeFrom 0 rest
      | some start =>
        match readTails start.tails start.low start.high start.bits rest with
        | (used, some code) => Char.ofNat code :: decodeFrom used rest
        | (used, none) => replacementChar :: decodeFrom used rest

/-- Reads any bytes as text. -/
def decodeLossy (bytes : List UInt8) : String := String.ofList (decodeFrom 0 (bytes.map (·.toNat)))

/-- The bytes of a text in UTF-8. -/
def utf8Bytes (text : String) : List UInt8 := text.toUTF8.data.toList

/-- The text that has exactly these bytes. -/
def decode? (bytes : List UInt8) : Option String :=
  let text := decodeLossy bytes
  if utf8Bytes text = bytes then some text else none

end PlanReplay.Text
