import UtxoWire.ObjectArray.Codec
import UtxoWire.Parameters
import UtxoWire.Validator.Inputs
import UtxoWire.Validator.Outputs

/-!
# Unsigned transactions

What is spent, what is created, and an optional payload.  On the wire the discriminant comes first,
then the array of inputs, the array of outputs, and the payload as its length and its bytes, where
length zero says that there is none.

* `UnsignedTransaction.decodeInto` — reads a transaction, part by part: `readInputs`, `readOutputs`,
  `readPayload`.
* `UnsignedTransaction.encode` — writes one.
* `UnsignedTransaction.syntacticallyValid` — the rules on values that hold whatever the ledger says.
* `UnsignedTransaction.totalDeposit` — what the outputs deposit together.
-/

namespace UtxoWire

/-- Inputs being spent, outputs being created, and perhaps a payload.  A payload that is there but
empty is told apart from one that is not there. -/
structure UnsignedTransaction where
  inputs : List Input := []
  outputs : List Output := []
  payload : Option Bytes := none
deriving DecidableEq, Inhabited

namespace UnsignedTransaction

def discriminant : UInt64 := 0

def typeName : String := "UnsignedTransaction"

/-! ## Reading -/

/-- The rules for an array, where the mode asks for them. -/
def rulesIn (mode : Mode) (rules : ArrayRules) : Option ArrayRules :=
  match mode with
  | .structural => none
  | .validated => some rules

/-- Reads the inputs.  Under validation no two of them may spend the same output. -/
def readInputs (params : ProtocolParameters) (mode : Mode) (data : Bytes) :
    Except WireError (List Input × Nat) := do
  let (inputs, length) ←
    ObjectArray.decode Input.codec mode (rulesIn mode params.inputRules) data
  mode.check (validate inputs [Input.uniqueReferences])
  return (inputs, length)

/-- Reads the outputs.  Under validation no two of them may deposit to the same address. -/
def readOutputs (params : ProtocolParameters) (mode : Mode) (data : Bytes) :
    Except WireError (List Output × Nat) := do
  let (outputs, length) ←
    ObjectArray.decode Output.codec mode (rulesIn mode params.outputRules) data
  mode.check (validate outputs [Output.uniqueAddresses])
  return (outputs, length)

/-- Reads the payload.  Length zero says that there is none. -/
def readPayload (mode : Mode) (data : Bytes) : Except WireError (Option Bytes × Nat) := do
  let (length, lengthSize) ← Varint.decode data
  mode.check (Varint.requireMinimal "payload length" length lengthSize)
  if length = 0 then
    return (none, lengthSize)
  else
    let rest ← Bytes.skip lengthSize data
    requireAtLeast length.toNat rest.length
    let payload ← Bytes.first length.toNat rest
    return (some payload.bytes, lengthSize + length.toNat)

/-- Reads a transaction over this one. -/
def decodeInto (params : ProtocolParameters) (mode : Mode) (data : Bytes) :
    Update UnsignedTransaction Nat := do
  let (body, length) ← readDiscriminant mode .transaction discriminant data
  let (inputs, inputsLength) ← readInputs params mode body
  let afterInputs ← Bytes.skip inputsLength body
  let (outputs, outputsLength) ← readOutputs params mode afterInputs
  let afterOutputs ← Bytes.skip outputsLength afterInputs
  let (payload, payloadLength) ← readPayload mode afterOutputs
  modify fun tx => { tx with inputs }
  modify fun tx => { tx with outputs }
  modify fun tx => { tx with payload }
  return length + inputsLength + outputsLength + payloadLength

/-! ## Writing -/

/-- What has to hold before a transaction is written under validation: no output spent twice, no
address deposited to twice, and no payload that is there but empty, since it would be read back as
none. -/
def checkEncodable (tx : UnsignedTransaction) : Except WireError Unit := do
  validate tx.inputs [Input.uniqueReferences]
  validate tx.outputs [Output.uniqueAddresses]
  require (tx.payload ≠ some []) (.invalidLength .min 1 0)

def encodePayload (payload : Option Bytes) : Bytes :=
  Varint.encodeNat (payload.getD []).length ++ payload.getD []

def encode (mode : Mode) (tx : UnsignedTransaction) : Except WireError Bytes := do
  mode.check tx.checkEncodable
  let inputs ← ObjectArray.encode Input.codec mode tx.inputs
  let outputs ← ObjectArray.encode Output.codec mode tx.outputs
  return Varint.encode discriminant ++ inputs ++ outputs ++ encodePayload tx.payload

/-! ## Values -/

/-- The rules on values: inputs refer to output indices within bounds and spend no output twice;
outputs go to different addresses, none deposits nothing or more than the supply, and together they
stay within it.  How many there are and in which order is not looked at. -/
def syntacticallyValid (params : ProtocolParameters) (tx : UnsignedTransaction) :
    Except WireError Unit := do
  validate tx.inputs [Input.referenceBounds params.maxUtxoIndex, Input.uniqueReferences]
  validate tx.outputs
    [Output.uniqueAddresses, Output.depositAmounts params.tokenSupply,
      Output.depositSum params.tokenSupply]

/-- What the outputs deposit together, if it fits into 64 bits. -/
def totalDeposit (tx : UnsignedTransaction) : Except WireError UInt64 :=
  tx.outputs.foldlM (fun total output => addDeposit total output.amount) 0

end UnsignedTransaction

end UtxoWire
