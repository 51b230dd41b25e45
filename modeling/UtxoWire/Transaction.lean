import UtxoWire.Transaction.Signed

/-!
# Transactions

The transactions of either kind, unsigned and signed.
-/

namespace UtxoWire

/-- A transaction of either kind. -/
inductive Transaction
  | unsigned (transaction : UnsignedTransaction)
  | signed (transaction : SignedTransaction)
deriving DecidableEq

namespace Transaction

/-- The empty transaction of the variant with this discriminant. -/
def blank (discriminant : UInt64) : Except WireError Transaction :=
  if discriminant = UnsignedTransaction.discriminant then .ok (.unsigned {})
  else if discriminant = SignedTransaction.discriminant then .ok (.signed {})
  else .error (.unknownType .transaction discriminant)

/-- Reads a transaction of the same variant over this one. -/
def decodeInto (params : ProtocolParameters) (mode : Mode) (data : Bytes) :
    Update Transaction Nat :=
  .ofApply fun
    | .unsigned tx => (UnsignedTransaction.decodeInto params mode data).inside .unsigned tx
    | .signed tx => (SignedTransaction.decodeInto params mode data).inside .signed tx

def encode (mode : Mode) : Transaction → Except WireError Bytes
  | .unsigned tx => tx.encode mode
  | .signed tx => tx.encode mode

def typeName : Transaction → String
  | .unsigned _ => UnsignedTransaction.typeName
  | .signed _ => SignedTransaction.typeName

/-- How transactions are read, with the bounds of these parameters, and written. -/
def codec (params : ProtocolParameters) : Codec Transaction where
  blank := blank
  decodeInto := decodeInto params
  encode := encode
  typeName := typeName

/-- The unsigned part, whichever variant it is. -/
def unsignedPart : Transaction → UnsignedTransaction
  | .unsigned tx => tx
  | .signed tx => tx.transaction

/-- The rules on values, and on unlock blocks if there are any. -/
def syntacticallyValid (params : ProtocolParameters) : Transaction → Except WireError Unit
  | .unsigned tx => tx.syntacticallyValid params
  | .signed tx => tx.syntacticallyValid params

end Transaction

end UtxoWire
