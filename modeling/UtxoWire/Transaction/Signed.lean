import UtxoWire.Blake3
import UtxoWire.Transaction.Unsigned
import UtxoWire.Validator.UnlockBlocks

/-!
# Signed transactions

An unsigned transaction together with an unlock block for each of its inputs: block `i` unlocks
input `i`.  On the wire the discriminant comes first, then the unsigned transaction with its own
discriminant, then the array of unlock blocks.

A signed transaction is identified by the BLAKE3 digest of its validated wire form.
-/

namespace UtxoWire

/-- An unsigned transaction and its unlock blocks. -/
structure SignedTransaction where
  transaction : UnsignedTransaction := {}
  unlockBlocks : List UnlockBlock := []
deriving DecidableEq, Inhabited

/-- One unlock block for each input, references to earlier signature blocks, and no signature
twice. -/
def checkUnlockBlocks (inputs : List Input) (blocks : List UnlockBlock) :
    Except WireError Unit := do
  require (blocks.length = inputs.length)
    (.unlockBlockCountMismatch inputs.length blocks.length)
  validate blocks [UnlockBlock.references, UnlockBlock.uniqueSignatures]

namespace SignedTransaction

def discriminant : UInt64 := 1

def typeName : String := "SignedTransaction"

/-- Reads the unsigned transaction inside; a failure is wrapped with its name. -/
def readTransaction (params : ProtocolParameters) (mode : Mode) (data : Bytes) :
    Except WireError (UnsignedTransaction × Nat) :=
  ((UnsignedTransaction.decodeInto params mode data).fill {}).mapError
    (.inEntity UnsignedTransaction.typeName)

/-- Reads a signed transaction over this one. -/
def decodeInto (params : ProtocolParameters) (mode : Mode) (data : Bytes) :
    Update SignedTransaction Nat := do
  let (body, length) ← readDiscriminant mode .transaction discriminant data
  let (transaction, transactionLength) ← readTransaction params mode body
  let rest ← Bytes.skip transactionLength body
  let (unlockBlocks, blocksLength) ← ObjectArray.decode UnlockBlock.codec mode
    (UnsignedTransaction.rulesIn mode params.unlockBlockRules) rest
  mode.check (checkUnlockBlocks transaction.inputs unlockBlocks)
  modify fun tx => { tx with transaction }
  modify fun tx => { tx with unlockBlocks }
  return length + transactionLength + blocksLength

def encode (mode : Mode) (tx : SignedTransaction) : Except WireError Bytes := do
  mode.check (checkUnlockBlocks tx.transaction.inputs tx.unlockBlocks)
  let transaction ←
    (tx.transaction.encode mode).mapError (.inEntity UnsignedTransaction.typeName)
  let blocks ← ObjectArray.encode UnlockBlock.codec mode tx.unlockBlocks
  return Varint.encode discriminant ++ transaction ++ blocks

/-- The rules on the values of the transaction inside, and those on unlock blocks. -/
def syntacticallyValid (params : ProtocolParameters) (tx : SignedTransaction) :
    Except WireError Unit := do
  tx.transaction.syntacticallyValid params
  checkUnlockBlocks tx.transaction.inputs tx.unlockBlocks

/-- What identifies a transaction under a given digest: the digest of its validated wire form. -/
def idWith (digest : Bytes → TransactionId) (tx : SignedTransaction) :
    Except WireError TransactionId :=
  (tx.encode .validated).map digest

/-- What identifies a transaction. -/
def id (tx : SignedTransaction) : Except WireError TransactionId :=
  tx.idWith Blake3.hash

end SignedTransaction

end UtxoWire
