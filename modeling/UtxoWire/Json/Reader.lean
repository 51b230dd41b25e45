import UtxoWire.Hex
import UtxoWire.Json.Double
import UtxoWire.Json.Value

/-!
# Reading JSON text

From a text to its tree, by the letter of RFC 8259: no comma too many, no comment, no byte order
mark, no control character inside a text.

* `Json.Document` — the tree at the front of a text, and whether anything but blanks follows it.
* `Json.read` — reads a document.  Reading always gives a tree; in that of a faulty text
  `Json.fault` stands where the fault is, and nothing after it.
-/

namespace UtxoWire.Json

/-- The blanks between the parts of a text. -/
def isBlank (c : Char) : Bool :=
  c = ' ' || c = '\n' || c = '\t' || c = '\r'

/-- The text without the blanks in front. -/
def skipBlanks (text : List Char) : List Char :=
  text.dropWhile isBlank

/-! ## Texts -/

/-- What a character or an escape between quotes stands for. -/
inductive Piece
  | char (c : Char)
  /-- One half of a surrogate pair. -/
  | half (unit : Nat)

/-- The characters that pieces spell.  Halves have to come in pairs, the high one first. -/
def spell : List Piece → Option (List Char)
  | [] => some []
  | .char c :: pieces => (spell pieces).map (c :: ·)
  | .half high :: .half low :: pieces =>
    if high < 0xDC00 ∧ 0xDC00 ≤ low then
      (spell pieces).map
        (Char.ofNat (0x10000 + 0x400 * (high - 0xD800) + (low - 0xDC00)) :: ·)
    else none
  | .half _ :: _ => none

/-- The value of a hexadecimal digit of either case. -/
def hexValue? (c : Char) : Option Nat :=
  if c.toNat < 128 then Hex.digitValue? (UInt8.ofNat c.toNat) else none

/-- The piece that four hexadecimal digits stand for. -/
def unitPiece (a b c d : Char) : Option Piece := do
  let unit := 4096 * (← hexValue? a) + 256 * (← hexValue? b) + 16 * (← hexValue? c) +
    (← hexValue? d)
  return if 0xD800 ≤ unit ∧ unit ≤ 0xDFFF then .half unit else .char (Char.ofNat unit)

/-- What the escapes of a single letter stand for. -/
def escaped? : Char → Option Char
  | '"' => some '"'
  | '\\' => some '\\'
  | '/' => some '/'
  | 'b' => some '\x08'
  | 'f' => some '\x0c'
  | 'n' => some '\n'
  | 'r' => some '\r'
  | 't' => some '\t'
  | _ => none

/-- The pieces up to the closing quote, and what follows it. -/
def readPieces : List Char → Option (List Piece × List Char)
  | [] => none
  | '"' :: rest => some ([], rest)
  | '\\' :: 'u' :: a :: b :: c :: d :: rest => do
    let piece ← unitPiece a b c d
    let (pieces, rest) ← readPieces rest
    return (piece :: pieces, rest)
  | '\\' :: letter :: rest => do
    let c ← escaped? letter
    let (pieces, rest) ← readPieces rest
    return (.char c :: pieces, rest)
  | c :: rest =>
    if c.toNat < 32 then none
    else do
      let (pieces, rest) ← readPieces rest
      return (.char c :: pieces, rest)

/-- The text up to the closing quote, if its pieces spell one, and what follows. -/
def readText (text : List Char) : Option (Option String × List Char) :=
  (readPieces text).map fun (pieces, rest) => ((spell pieces).map String.ofList, rest)

/-! ## Numbers -/

/-- The number that decimal digits spell. -/
def ofDigits (digits : List Char) : Nat :=
  digits.foldl (fun value digit => 10 * value + Double.digitValue digit) 0

/-- The digits in front, and what follows them. -/
def spanDigits (text : List Char) : List Char × List Char :=
  (text.takeWhile Char.isDigit, text.dropWhile Char.isDigit)

/-- The digits after the point, if there is a point. -/
def readFraction : List Char → Option (Option (List Char) × List Char)
  | '.' :: rest =>
    match spanDigits rest with
    | ([], _) => none
    | (digits, rest) => some (some digits, rest)
  | text => some (none, text)

/-- The power of ten, if one is given. -/
def readExponent : List Char → Option (Option Int × List Char)
  | [] => some (none, [])
  | c :: rest =>
    if c = 'e' ∨ c = 'E' then
      let (sign, rest) : Int × List Char :=
        match rest with
        | '+' :: rest => (1, rest)
        | '-' :: rest => (-1, rest)
        | rest => (1, rest)
      match spanDigits rest with
      | ([], _) => none
      | (digits, rest) => some (some (sign * ofDigits digits), rest)
    else some (none, c :: rest)

/-- Whether digits may stand in front of the point: there are some, and a zero in front stands
alone. -/
def wholePart : List Char → Bool
  | [] => false
  | ['0'] => true
  | '0' :: _ => false
  | _ => true

/-- Reads a number, the sign of which has been looked at. -/
def readUnsigned (negative : Bool) (text : List Char) : Option (Json × List Char) := do
  let (whole, rest) := spanDigits text
  if wholePart whole then
    let (fraction, rest) ← readFraction rest
    let (exponent, rest) ← readExponent rest
    let value := ofDigits whole
    if negative ∨ fraction.isSome ∨ exponent.isSome ∨ UInt64.size ≤ value then
      return (.number (Double.finite whole (fraction.getD []) (exponent.getD 0)), rest)
    else
      return (.natural value, rest)
  else none

/-- Reads a number. -/
def readNumber : List Char → Option (Json × List Char)
  | '-' :: rest => readUnsigned true rest
  | text => readUnsigned false text

/-! ## Values

The readers below give what they read and what follows it; nothing follows where the text is at
fault.  `fuel` bounds the number of steps, see `read`. -/

/-- A fault, and nothing after it. -/
def stopped : Json × Option (List Char) :=
  (.fault, none)

mutual

/-- Reads a value, blanks in front included. -/
def readValue : (fuel : Nat) → List Char → Json × Option (List Char)
  | 0, _ => stopped
  | fuel + 1, text =>
    match skipBlanks text with
    | '\x7b' :: rest =>
      match skipBlanks rest with
      | '\x7d' :: rest => (.object [], some rest)
      | rest =>
        let (members, rest) := readMembers fuel rest
        (.object members, rest)
    | '[' :: rest =>
      match skipBlanks rest with
      | ']' :: rest => (.array [], some rest)
      | rest =>
        let (items, rest) := readItems fuel rest
        (.array items, rest)
    | '"' :: rest =>
      match readText rest with
      | some (text, rest) => (.string text, some rest)
      | none => stopped
    | 'n' :: 'u' :: 'l' :: 'l' :: rest => (.null, some rest)
    | 't' :: 'r' :: 'u' :: 'e' :: rest => (.bool true, some rest)
    | 'f' :: 'a' :: 'l' :: 's' :: 'e' :: rest => (.bool false, some rest)
    | rest =>
      match readNumber rest with
      | some (value, rest) => (value, some rest)
      | none => stopped

/-- Reads the items of an array from the next one on, and the closing bracket. -/
def readItems : (fuel : Nat) → List Char → List Json × Option (List Char)
  | 0, _ => ([.fault], none)
  | fuel + 1, text =>
    match readValue fuel text with
    | (item, none) => ([item], none)
    | (item, some rest) =>
      match skipBlanks rest with
      | ',' :: rest =>
        let (items, rest) := readItems fuel rest
        (item :: items, rest)
      | ']' :: rest => ([item], some rest)
      | _ => ([item, .fault], none)

/-- Reads the members of an object from the next one on, and the closing brace. -/
def readMembers : (fuel : Nat) → List Char → List (Option String × Json) × Option (List Char)
  | 0, _ => ([(none, .fault)], none)
  | fuel + 1, text =>
    match skipBlanks text with
    | '"' :: rest =>
      match readText rest with
      | none => ([(none, .fault)], none)
      | some (key, rest) =>
        match skipBlanks rest with
        | ':' :: rest =>
          match readValue fuel rest with
          | (value, none) => ([(key, value)], none)
          | (value, some rest) =>
            match skipBlanks rest with
            | ',' :: rest =>
              let (members, rest) := readMembers fuel rest
              ((key, value) :: members, rest)
            | '\x7d' :: rest => ([(key, value)], some rest)
            | _ => ([(key, value), (none, .fault)], none)
        | _ => ([(key, .fault)], none)
    | _ => ([(none, .fault)], none)

end

/-! ## Documents -/

/-- What a text holds. -/
structure Document where
  /-- The value at the front. -/
  value : Json
  /-- Nothing but blanks follows it. -/
  complete : Bool

/-- Reads a text.  Two steps a character are enough: of any two steps in a row one takes a character
or is the last. -/
def read (text : String) : Document :=
  let chars := text.toList
  match readValue (2 * chars.length + 2) chars with
  | (value, none) => ⟨value, false⟩
  | (value, some rest) => ⟨value, (skipBlanks rest).isEmpty⟩

end UtxoWire.Json
