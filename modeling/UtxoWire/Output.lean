import UtxoWire.Address

/-!
# Outputs

What a transaction creates.  An output deposits an amount to an address, to be spent with a
signature.  On the wire the discriminant comes first, then the address with its own discriminant,
then the amount as eight bytes, low byte first.
-/

namespace UtxoWire

def amountLength : Nat := 8

/-- Deposits an amount to a single address. -/
structure SingleDeposit where
  address : Address
  amount : UInt64
deriving DecidableEq, Inhabited

namespace SingleDeposit

def discriminant : UInt64 := 0

def encode (deposit : SingleDeposit) : Bytes :=
  Varint.encode discriminant ++ deposit.address.encode ++
    toLittleEndian 8 deposit.amount.toNat

def decodeInto (mode : Mode) (data : Bytes) : Update SingleDeposit Nat := do
  let (body, length) ← readDiscriminant mode .output discriminant data
  let (address, addressLength) ← Address.codec.decode mode body
  let rest ← Bytes.skip addressLength body
  requireAtLeast amountLength rest.length
  let amount ← Bytes.first 8 rest
  modify fun deposit => { deposit with address }
  modify fun deposit => { deposit with amount := UInt64.ofNat (ofLittleEndian amount.bytes) }
  return length + addressLength + amountLength

end SingleDeposit

/-- An output of any variant. -/
inductive Output
  | singleDeposit (deposit : SingleDeposit)
deriving DecidableEq

namespace Output

/-- The empty output of the variant with this discriminant. -/
def blank (discriminant : UInt64) : Except WireError Output :=
  if discriminant = SingleDeposit.discriminant then .ok (.singleDeposit default)
  else .error (.unknownType .output discriminant)

def decodeInto (mode : Mode) (data : Bytes) : Update Output Nat :=
  .ofApply fun
    | .singleDeposit deposit => (SingleDeposit.decodeInto mode data).inside .singleDeposit deposit

def encode : Output → Bytes
  | .singleDeposit deposit => deposit.encode

def typeName : Output → String
  | .singleDeposit _ => "SigLockedSingleDeposit"

def codec : Codec Output where
  blank := blank
  decodeInto := decodeInto
  encode := fun _ output => .ok output.encode
  typeName := typeName

/-- Who receives the deposit. -/
def address : Output → Address
  | .singleDeposit deposit => deposit.address

def amount : Output → UInt64
  | .singleDeposit deposit => deposit.amount

end Output

end UtxoWire
