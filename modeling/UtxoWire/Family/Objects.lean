import UtxoWire.Json.Entities

/-!
# The objects of each family

What every family has: a type of objects, a codec, and a form in JSON.  Whoever works on objects of
a family that is known only when the program runs finds all of it here.
-/

namespace UtxoWire.Family

/-- The objects of a family. -/
def Object : Family → Type
  | .address => Address
  | .input => Input
  | .output => Output
  | .signature => Signature
  | .unlockBlock => UnlockBlock
  | .transaction => Transaction

/-- How the objects of a family are read and written.  The parameters concern transactions alone. -/
def codec (params : ProtocolParameters) : (family : Family) → Codec family.Object
  | .address => Address.codec
  | .input => Input.codec
  | .output => Output.codec
  | .signature => Signature.codec
  | .unlockBlock => UnlockBlock.codec
  | .transaction => Transaction.codec params

instance : (family : Family) → JsonForm family.Object
  | .address => inferInstanceAs (JsonForm Address)
  | .input => inferInstanceAs (JsonForm Input)
  | .output => inferInstanceAs (JsonForm Output)
  | .signature => inferInstanceAs (JsonForm Signature)
  | .unlockBlock => inferInstanceAs (JsonForm UnlockBlock)
  | .transaction => inferInstanceAs (JsonForm Transaction)

end UtxoWire.Family
