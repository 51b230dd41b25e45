import UtxoWire.Bytes

/-!
# Hexadecimal text

Bytes as people exchange them: two digits a byte, the high half first.

* `encode` — lower-case digits, no mark in front.
* `decode`, `decodeFixed` — digits of either case, for any even number of them or for exactly
  `n` bytes.  What is wrong is reported in a fixed order: an odd number of digits, then a wrong
  number of bytes, then the first byte that is no digit.
* `stripMarks` — drops every `0x` in front.

Text is judged by its UTF-8 bytes (`utf8`): they are what is counted, and a position counts bytes.
-/

namespace UtxoWire

/-- The UTF-8 bytes of a text. -/
def utf8 (text : String) : Bytes :=
  text.toList.flatMap String.utf8EncodeChar

namespace Hex

/-- Why a text is not hexadecimal. -/
inductive Fault
  /-- The digits do not pair up. -/
  | oddLength
  /-- A field of fixed size was given another number of bytes. -/
  | wrongLength
  /-- The byte at a position is not a digit. -/
  | badDigit (byte : UInt8) (position : Nat)
deriving DecidableEq

/-! ## Writing -/

/-- The lower-case digit of a value below 16. -/
def digit (value : Nat) : Char :=
  Char.ofNat (if value < 10 then 48 + value else 87 + value)

/-- Two digits a byte, the high half first. -/
def encode (bytes : Bytes) : List Char :=
  bytes.flatMap fun b => [digit (b.toNat / 16), digit (b.toNat % 16)]

/-- The digits as one text. -/
def text (bytes : Bytes) : String :=
  String.ofList (encode bytes)

/-! ## Reading -/

/-- The value of a digit of either case. -/
def digitValue? (byte : UInt8) : Option Nat :=
  let code := byte.toNat
  if 48 ≤ code ∧ code ≤ 57 then some (code - 48)
  else if 97 ≤ code ∧ code ≤ 102 then some (code - 87)
  else if 65 ≤ code ∧ code ≤ 70 then some (code - 55)
  else none

/-- The value of the digit at a position. -/
def readDigit (position : Nat) (byte : UInt8) : Except Fault Nat :=
  match digitValue? byte with
  | some value => .ok value
  | none => .error (.badDigit byte position)

/-- Reads digits in pairs; `position` is that of the first of them. -/
def decodePairs : (position : Nat) → Bytes → Except Fault Bytes
  | _, [] => .ok []
  | _, [_] => .error .oddLength
  | position, a :: b :: rest => do
    let high ← readDigit position a
    let low ← readDigit (position + 1) b
    let bytes ← decodePairs (position + 2) rest
    return UInt8.ofNat (16 * high + low) :: bytes

/-- Reads any number of bytes. -/
def decode (digits : Bytes) : Except Fault Bytes :=
  if digits.length % 2 = 1 then .error .oddLength
  else decodePairs 0 digits

/-- Reads exactly `n` bytes. -/
def decodeFixed (n : Nat) (digits : Bytes) : Except Fault (FixedBytes n) :=
  if digits.length % 2 = 1 then .error .oddLength
  else if digits.length / 2 ≠ n then .error .wrongLength
  else do
    match FixedBytes.ofBytes? n (← decodePairs 0 digits) with
    | some field => .ok field
    | none => .error .wrongLength

/-- Drops every `0x` in front, however many there are. -/
def stripMarks : Bytes → Bytes
  | 0x30 :: 0x78 :: rest => stripMarks rest
  | digits => digits

/-- Drops at most one `0x` in front. -/
def stripMark : Bytes → Bytes
  | 0x30 :: 0x78 :: rest => rest
  | digits => digits

/-! ## Wording -/

/-- A byte as a quoted Latin-1 character.  A character that does not show on its own, the quote and
the backslash are escaped. -/
def quoteByte (byte : UInt8) : String :=
  let code := byte.toNat
  let shown :=
    if code = 0 then "\\0"
    else if code = 9 then "\\t"
    else if code = 10 then "\\n"
    else if code = 13 then "\\r"
    else if code = 39 then "\\'"
    else if code = 92 then "\\\\"
    else if code < 32 ∨ (127 ≤ code ∧ code ≤ 160) ∨ code = 173 then
      "\\u\x7b" ++ String.ofList (Nat.toDigits 16 code) ++ "\x7d"
    else String.singleton (Char.ofNat code)
  "'" ++ shown ++ "'"

/-- What a reader is told. -/
def Fault.message : Fault → String
  | .oddLength => "Odd number of digits"
  | .wrongLength => "Invalid string length"
  | .badDigit byte position => s!"Invalid character {quoteByte byte} at position {position}"

end Hex

end UtxoWire
