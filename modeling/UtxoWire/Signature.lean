import UtxoWire.Codec

/-!
# Signatures

What authorises the spending of an input.  Key and signature are carried as they are; whether one
verifies under the other is not looked at.  On the wire the discriminant comes first, then the
32 bytes of the public key, then the 64 bytes of the signature.

The one-time signature scheme that came before keeps its discriminant, so that no other scheme takes
it, and every attempt to read or write such a signature fails.
-/

namespace UtxoWire

/-- How many bytes an Ed25519 signature has. -/
def signatureLength : Nat := 64

/-- The place of the one-time signature scheme.  There is nothing in it. -/
structure WotsSignature where
deriving DecidableEq, Inhabited

namespace WotsSignature

def discriminant : UInt64 := 0

/-- Why these signatures are neither read nor written. -/
def unimplemented : WireError :=
  .unimplemented .signature "WOTS"

def decodeInto (_ : Mode) (_ : Bytes) : Update WotsSignature Nat :=
  throw unimplemented

def encode (_ : WotsSignature) : Except WireError Bytes :=
  .error unimplemented

end WotsSignature

/-- An Ed25519 signature with the public key it is said to verify under. -/
structure Ed25519Signature where
  publicKey : FixedBytes 32
  signature : FixedBytes 64
deriving DecidableEq, Inhabited

namespace Ed25519Signature

def discriminant : UInt64 := 1

def wireSize : Nat := 97

def bodyLength : Nat := 96

def encode (signature : Ed25519Signature) : Bytes :=
  Varint.encode discriminant ++ signature.publicKey.bytes ++ signature.signature.bytes

def decodeInto (mode : Mode) (data : Bytes) : Update Ed25519Signature Nat := do
  requireAtLeast wireSize data.length
  let (body, length) ← readDiscriminant mode .signature discriminant data
  requireAtLeast bodyLength body.length
  let publicKey ← Bytes.first 32 body
  modify fun old => { old with publicKey }
  let signature ← Bytes.first 64 (← Bytes.skip 32 body)
  modify fun old => { old with signature }
  return length + bodyLength

end Ed25519Signature

/-- A signature of any variant. -/
inductive Signature
  | wots (signature : WotsSignature)
  | ed25519 (signature : Ed25519Signature)
deriving DecidableEq

instance : Inhabited Signature :=
  ⟨.ed25519 default⟩

namespace Signature

/-- The empty signature of the variant with this discriminant. -/
def blank (discriminant : UInt64) : Except WireError Signature :=
  if discriminant = WotsSignature.discriminant then .ok (.wots default)
  else if discriminant = Ed25519Signature.discriminant then .ok (.ed25519 default)
  else .error (.unknownType .signature discriminant)

def decodeInto (mode : Mode) (data : Bytes) : Update Signature Nat :=
  .ofApply fun
    | .wots signature => (WotsSignature.decodeInto mode data).inside .wots signature
    | .ed25519 signature => (Ed25519Signature.decodeInto mode data).inside .ed25519 signature

def encode : Signature → Except WireError Bytes
  | .wots signature => signature.encode
  | .ed25519 signature => .ok signature.encode

def typeName : Signature → String
  | .wots _ => "WotsSignature"
  | .ed25519 _ => "Ed25519Signature"

def codec : Codec Signature where
  blank := blank
  decodeInto := decodeInto
  encode := fun _ signature => signature.encode
  typeName := typeName

end Signature

end UtxoWire
