import UtxoWire.Codec
import UtxoWire.Hex

/-!
# Addresses

Where an output deposits to.  The wire form of an address is its discriminant followed by the
32 bytes of an Ed25519 public key.  Discriminant 0 is held by the one-time signature scheme that
came before and has no form of its own any more.
-/

namespace UtxoWire

/-- How many bytes an Ed25519 public key has. -/
def publicKeyLength : Nat := 32

/-- An address that is the public key of its owner. -/
structure Ed25519Address where
  /-- The public key. -/
  key : FixedBytes 32
deriving DecidableEq, Inhabited

namespace Ed25519Address

def discriminant : UInt64 := 1

def wireSize : Nat := 33

def encode (address : Ed25519Address) : Bytes :=
  Varint.encode discriminant ++ address.key.bytes

def decodeInto (mode : Mode) (data : Bytes) : Update Ed25519Address Nat := do
  requireAtLeast wireSize data.length
  let (body, length) ← readDiscriminant mode .address discriminant data
  requireAtLeast publicKeyLength body.length
  let key ← Bytes.first 32 body
  modify fun address => { address with key }
  return length + publicKeyLength

/-- The key in hexadecimal. -/
def display (address : Ed25519Address) : String :=
  Hex.text address.key.bytes

end Ed25519Address

/-- An address of any variant. -/
inductive Address
  | ed25519 (address : Ed25519Address)
deriving DecidableEq

instance : Inhabited Address :=
  ⟨.ed25519 default⟩

namespace Address

/-- The empty address of the variant with this discriminant. -/
def blank (discriminant : UInt64) : Except WireError Address :=
  if discriminant = 0 then .error (.unimplemented .address "WOTS")
  else if discriminant = Ed25519Address.discriminant then .ok (.ed25519 default)
  else .error (.unknownType .address discriminant)

def decodeInto (mode : Mode) (data : Bytes) : Update Address Nat :=
  .ofApply fun
    | .ed25519 address => (Ed25519Address.decodeInto mode data).inside .ed25519 address

def encode : Address → Bytes
  | .ed25519 address => address.encode

def typeName : Address → String
  | .ed25519 _ => "Ed25519Address"

def codec : Codec Address where
  blank := blank
  decodeInto := decodeInto
  encode := fun _ address => .ok address.encode
  typeName := typeName

/-- The variant and what it holds. -/
def display : Address → String
  | .ed25519 address => "ed25519:" ++ address.display

end Address

end UtxoWire
