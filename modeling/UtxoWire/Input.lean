import UtxoWire.Codec
import UtxoWire.Hex

/-!
# Inputs

What a transaction spends.  An input names an output of an earlier transaction by the identifier of
that transaction and the place of the output in it.  On the wire the discriminant comes first, then
the 32 bytes of the identifier, then the place as two bytes, low byte first.
-/

namespace UtxoWire

/-- How many bytes the identifier of a transaction has. -/
def transactionIdLength : Nat := 32

/-- The digest that identifies a transaction. -/
abbrev TransactionId := FixedBytes 32

/-- Spends one output of an earlier transaction. -/
structure UtxoInput where
  transactionId : TransactionId
  outputIndex : UInt16
deriving DecidableEq, Inhabited

namespace UtxoInput

def discriminant : UInt64 := 0

def wireSize : Nat := 35

/-- How many bytes name the spent output. -/
def referenceLength : Nat := 34

/-- The bytes that name the spent output: the identifier, then the place, low byte first.  Two
inputs spend the same output exactly when these are equal. -/
def reference (input : UtxoInput) : Bytes :=
  input.transactionId.bytes ++ toLittleEndian 2 input.outputIndex.toNat

def encode (input : UtxoInput) : Bytes :=
  Varint.encode discriminant ++ input.reference

def decodeInto (mode : Mode) (data : Bytes) : Update UtxoInput Nat := do
  requireAtLeast wireSize data.length
  let (body, length) ← readDiscriminant mode .input discriminant data
  requireAtLeast referenceLength body.length
  let transactionId ← Bytes.first 32 body
  modify fun input => { input with transactionId }
  let index ← Bytes.first 2 (← Bytes.skip transactionIdLength body)
  modify fun input => { input with outputIndex := UInt16.ofNat (ofLittleEndian index.bytes) }
  return length + referenceLength

/-- The identifier in hexadecimal and the place. -/
def display (input : UtxoInput) : String :=
  s!"{Hex.text input.transactionId.bytes}:{input.outputIndex.toNat}"

end UtxoInput

/-- An input of any variant. -/
inductive Input
  | utxo (input : UtxoInput)
deriving DecidableEq

namespace Input

/-- The empty input of the variant with this discriminant. -/
def blank (discriminant : UInt64) : Except WireError Input :=
  if discriminant = UtxoInput.discriminant then .ok (.utxo default)
  else .error (.unknownType .input discriminant)

def decodeInto (mode : Mode) (data : Bytes) : Update Input Nat :=
  .ofApply fun
    | .utxo input => (UtxoInput.decodeInto mode data).inside .utxo input

def encode : Input → Bytes
  | .utxo input => input.encode

def typeName : Input → String
  | .utxo _ => "UtxoInput"

def codec : Codec Input where
  blank := blank
  decodeInto := decodeInto
  encode := fun _ input => .ok input.encode
  typeName := typeName

/-- The bytes that name the spent output. -/
def reference : Input → Bytes
  | .utxo input => input.reference

def outputIndex : Input → UInt16
  | .utxo input => input.outputIndex

/-- The variant and what it holds. -/
def display : Input → String
  | .utxo input => "utxo:" ++ input.display

end Input

end UtxoWire
