import UtxoWire.Signature

/-!
# Unlock blocks

What a signed transaction carries for each of its inputs.  A *signature* block holds a signature; a
*reference* block names an earlier signature block by its place, so that inputs of one owner share
one signature.  On the wire the discriminant comes first, then the signature with its own
discriminant, or the place as two bytes, low byte first.
-/

namespace UtxoWire

/-- Unlocks an input with a signature. -/
structure SignatureUnlockBlock where
  signature : Signature
deriving DecidableEq, Inhabited

namespace SignatureUnlockBlock

def discriminant : UInt64 := 0

def encode (block : SignatureUnlockBlock) : Except WireError Bytes := do
  let signature ← block.signature.encode
  return Varint.encode discriminant ++ signature

def decodeInto (mode : Mode) (data : Bytes) : Update SignatureUnlockBlock Nat := do
  let (body, length) ← readDiscriminant mode .unlockBlock discriminant data
  let (signature, signatureLength) ← Signature.codec.decode mode body
  modify fun block => { block with signature }
  return length + signatureLength

end SignatureUnlockBlock

/-- Unlocks an input the way an earlier block does. -/
structure ReferenceUnlockBlock where
  reference : UInt16
deriving DecidableEq, Inhabited

namespace ReferenceUnlockBlock

def discriminant : UInt64 := 1

def wireSize : Nat := 3

/-- How many bytes the place takes. -/
def referenceLength : Nat := 2

def encode (block : ReferenceUnlockBlock) : Bytes :=
  Varint.encode discriminant ++ toLittleEndian 2 block.reference.toNat

def decodeInto (mode : Mode) (data : Bytes) : Update ReferenceUnlockBlock Nat := do
  requireAtLeast wireSize data.length
  let (body, length) ← readDiscriminant mode .unlockBlock discriminant data
  requireAtLeast referenceLength body.length
  let reference ← Bytes.first 2 body
  modify fun block => { block with reference := UInt16.ofNat (ofLittleEndian reference.bytes) }
  return length + referenceLength

end ReferenceUnlockBlock

/-- An unlock block of any variant. -/
inductive UnlockBlock
  | signature (block : SignatureUnlockBlock)
  | reference (block : ReferenceUnlockBlock)
deriving DecidableEq

namespace UnlockBlock

/-- The empty unlock block of the variant with this discriminant. -/
def blank (discriminant : UInt64) : Except WireError UnlockBlock :=
  if discriminant = SignatureUnlockBlock.discriminant then .ok (.signature default)
  else if discriminant = ReferenceUnlockBlock.discriminant then .ok (.reference default)
  else .error (.unknownType .unlockBlock discriminant)

def decodeInto (mode : Mode) (data : Bytes) : Update UnlockBlock Nat :=
  .ofApply fun
    | .signature block => (SignatureUnlockBlock.decodeInto mode data).inside .signature block
    | .reference block => (ReferenceUnlockBlock.decodeInto mode data).inside .reference block

def encode : UnlockBlock → Except WireError Bytes
  | .signature block => block.encode
  | .reference block => .ok block.encode

def typeName : UnlockBlock → String
  | .signature _ => "SignatureUnlockBlock"
  | .reference _ => "ReferenceUnlockBlock"

def codec : Codec UnlockBlock where
  blank := blank
  decodeInto := decodeInto
  encode := fun _ block => block.encode
  typeName := typeName

/-- Whether the block holds a signature of its own. -/
def isSignature : UnlockBlock → Bool
  | .signature _ => true
  | .reference _ => false

end UnlockBlock

end UtxoWire
