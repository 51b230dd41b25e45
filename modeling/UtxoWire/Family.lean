/-!
# Families

Every object on the wire starts with a number that says which variant of its family it is.  Each
family numbers its variants on its own.
-/

namespace UtxoWire

/-- The families of objects, each with discriminants of its own. -/
inductive Family
  | address
  | input
  | output
  | signature
  | unlockBlock
  | transaction
deriving DecidableEq

/-- How a message names the family. -/
def Family.name : Family → String
  | .address => "address"
  | .input => "input"
  | .output => "output"
  | .signature => "signature"
  | .unlockBlock => "unlock block"
  | .transaction => "transaction"

end UtxoWire
