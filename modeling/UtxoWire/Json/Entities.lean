import UtxoWire.Json.Form
import UtxoWire.Transaction

/-!
# Objects as JSON

The descriptions of the objects of the wire format and of protocol parameters.

* Bytes are hexadecimal texts, numbers are whole numbers.
* A family is described by the name of the variant and its content.
* A missing payload is not written; where it is read, the member may be missing or `null`.
* Protocol parameters may leave out any member, which then has its default.
-/

namespace UtxoWire

open JsonForm

/-! ## Addresses -/

instance : JsonForm Ed25519Address where
  toJson address := toJson address.key
  ofJson place json := (ofJson place json).map Ed25519Address.mk

/-- The name of the variant of addresses and signatures that is in use. -/
def ed25519Tag : String := "ed25519"

instance : JsonForm Address where
  toJson
    | .ed25519 address => taggedJson "address" ed25519Tag (toJson address)
  ofJson := readTagged "address"
    [(ed25519Tag, ())]
    (fun _ place json => (ofJson place json).map Address.ed25519)

/-! ## Inputs -/

/-- The fields of an input read so far. -/
structure UtxoInput.Slots where
  transactionId : Option TransactionId := none
  outputIndex : Option UInt16 := none

instance : JsonForm UtxoInput where
  toJson input := .ofFields
    [("transaction_id", toJson input.transactionId),
      ("transaction_output_index", toJson input.outputIndex)]
  ofJson := readRecord
    (fun place items => do
      let (transactionId, items) ← nextItem place items
      let (outputIndex, items) ← nextItem place items
      noMore items
      return { transactionId, outputIndex })
    (fun place members => do
      let slots ← readMembers
        (fun (slots : UtxoInput.Slots) key json =>
          match key with
          | "transaction_id" =>
            return { slots with transactionId := ← readSlot place slots.transactionId json }
          | "transaction_output_index" =>
            return { slots with outputIndex := ← readSlot place slots.outputIndex json }
          | _ => passOver slots json)
        {} members
      return {
        transactionId := ← required slots.transactionId
        outputIndex := ← required slots.outputIndex })

instance : JsonForm Input where
  toJson
    | .utxo input => taggedJson "input" "utxo" (toJson input)
  ofJson := readTagged "input"
    [("utxo", ())]
    (fun _ place json => (ofJson place json).map Input.utxo)

/-! ## Outputs -/

/-- The fields of a deposit read so far. -/
structure SingleDeposit.Slots where
  address : Option Address := none
  amount : Option UInt64 := none

instance : JsonForm SingleDeposit where
  toJson deposit := .ofFields
    [("address", toJson deposit.address), ("amount", toJson deposit.amount)]
  ofJson := readRecord
    (fun place items => do
      let (address, items) ← nextItem place items
      let (amount, items) ← nextItem place items
      noMore items
      return { address, amount })
    (fun place members => do
      let slots ← readMembers
        (fun (slots : SingleDeposit.Slots) key json =>
          match key with
          | "address" => return { slots with address := ← readSlot place slots.address json }
          | "amount" => return { slots with amount := ← readSlot place slots.amount json }
          | _ => passOver slots json)
        {} members
      return {
        address := ← required slots.address
        amount := ← required slots.amount })

/-- The name of the only variant of outputs. -/
def singleDepositTag : String := "sig_locked_single_deposit"

instance : JsonForm Output where
  toJson
    | .singleDeposit deposit => taggedJson "output" singleDepositTag (toJson deposit)
  ofJson := readTagged "output"
    [(singleDepositTag, ())]
    (fun _ place json => (ofJson place json).map Output.singleDeposit)

/-! ## Signatures -/

/-- There is nothing to say.  Of content that was kept, an empty array says so as well. -/
instance : JsonForm WotsSignature where
  toJson _ := .null
  ofJson place json :=
    match json with
    | .array [] => if place.kept then .ok {} else .error .shape
    | json => if isNothing place json then .ok {} else .error .shape

/-- The fields of a signature read so far. -/
structure Ed25519Signature.Slots where
  publicKey : Option (FixedBytes 32) := none
  signature : Option (FixedBytes 64) := none

instance : JsonForm Ed25519Signature where
  toJson signature := .ofFields
    [("public_key", toJson signature.publicKey), ("signature", toJson signature.signature)]
  ofJson := readRecord
    (fun place items => do
      let (publicKey, items) ← nextItem place items
      let (signature, items) ← nextItem place items
      noMore items
      return { publicKey, signature })
    (fun place members => do
      let slots ← readMembers
        (fun (slots : Ed25519Signature.Slots) key json =>
          match key with
          | "public_key" => return { slots with publicKey := ← readSlot place slots.publicKey json }
          | "signature" => return { slots with signature := ← readSlot place slots.signature json }
          | _ => passOver slots json)
        {} members
      return {
        publicKey := ← required slots.publicKey
        signature := ← required slots.signature })

/-- The variants of signatures. -/
inductive SignatureTag
  | wots
  | ed25519

instance : JsonForm Signature where
  toJson
    | .wots signature => taggedJson "signature" "wots" (toJson signature)
    | .ed25519 signature => taggedJson "signature" ed25519Tag (toJson signature)
  ofJson := readTagged "signature"
    [("wots", SignatureTag.wots), (ed25519Tag, .ed25519)]
    (fun
      | .wots, place, json => (ofJson place json).map Signature.wots
      | .ed25519, place, json => (ofJson place json).map Signature.ed25519)

/-! ## Unlock blocks -/

/-- Reads a record of a single field. -/
def readSingle {α β : Type} [JsonForm α] (name : String) (wrap : α → β) :
    Place → Json → Except Misfit β :=
  readRecord
    (fun place items => do
      let (field, items) ← nextItem place items
      noMore items
      return wrap field)
    (fun place members => do
      let slot ← readMembers
        (fun slot key json => if key = name then readSlot place slot json else passOver slot json)
        none members
      return wrap (← required slot))

instance : JsonForm SignatureUnlockBlock where
  toJson block := .ofFields [("signature", toJson block.signature)]
  ofJson := readSingle "signature" SignatureUnlockBlock.mk

instance : JsonForm ReferenceUnlockBlock where
  toJson block := .ofFields [("reference", toJson block.reference)]
  ofJson := readSingle "reference" ReferenceUnlockBlock.mk

/-- The variants of unlock blocks. -/
inductive UnlockBlockTag
  | signature
  | reference

instance : JsonForm UnlockBlock where
  toJson
    | .signature block => taggedJson "block" "signature" (toJson block)
    | .reference block => taggedJson "block" "reference" (toJson block)
  ofJson := readTagged "block"
    [("signature", UnlockBlockTag.signature), ("reference", .reference)]
    (fun
      | .signature, place, json => (ofJson place json).map UnlockBlock.signature
      | .reference, place, json => (ofJson place json).map UnlockBlock.reference)

/-! ## Transactions -/

/-- The fields of an unsigned transaction read so far. -/
structure UnsignedTransaction.Slots where
  inputs : Option (List Input) := none
  outputs : Option (List Output) := none
  payload : Option (Option Bytes) := none

instance : JsonForm UnsignedTransaction where
  toJson tx := .ofFields
    ([("inputs", toJson tx.inputs), ("outputs", toJson tx.outputs)] ++
      (tx.payload.map fun payload => ("payload", toJson payload)).toList)
  ofJson := readRecord
    (fun place items => do
      let (inputs, items) ← nextItem place items
      let (outputs, items) ← nextItem place items
      let (payload, items) ← nextItemD place none items
      noMore items
      return { inputs, outputs, payload })
    (fun place members => do
      let slots ← readMembers
        (fun (slots : UnsignedTransaction.Slots) key json =>
          match key with
          | "inputs" => return { slots with inputs := ← readSlot place slots.inputs json }
          | "outputs" => return { slots with outputs := ← readSlot place slots.outputs json }
          | "payload" => return { slots with payload := ← readSlot place slots.payload json }
          | _ => passOver slots json)
        {} members
      return {
        inputs := ← required slots.inputs
        outputs := ← required slots.outputs
        payload := slots.payload.getD none })

/-- The fields of a signed transaction read so far. -/
structure SignedTransaction.Slots where
  transaction : Option UnsignedTransaction := none
  unlockBlocks : Option (List UnlockBlock) := none

instance : JsonForm SignedTransaction where
  toJson tx := .ofFields
    [("transaction", toJson tx.transaction), ("unlock_blocks", toJson tx.unlockBlocks)]
  ofJson := readRecord
    (fun place items => do
      let (transaction, items) ← nextItem place items
      let (unlockBlocks, items) ← nextItem place items
      noMore items
      return { transaction, unlockBlocks })
    (fun place members => do
      let slots ← readMembers
        (fun (slots : SignedTransaction.Slots) key json =>
          match key with
          | "transaction" =>
            return { slots with transaction := ← readSlot place slots.transaction json }
          | "unlock_blocks" =>
            return { slots with unlockBlocks := ← readSlot place slots.unlockBlocks json }
          | _ => passOver slots json)
        {} members
      return {
        transaction := ← required slots.transaction
        unlockBlocks := ← required slots.unlockBlocks })

/-- The variants of transactions. -/
inductive TransactionTag
  | unsigned
  | signed

instance : JsonForm Transaction where
  toJson
    | .unsigned tx => taggedJson "transaction" "unsigned" (toJson tx)
    | .signed tx => taggedJson "transaction" "signed" (toJson tx)
  ofJson := readTagged "transaction"
    [("unsigned", TransactionTag.unsigned), ("signed", .signed)]
    (fun
      | .unsigned, place, json => (ofJson place json).map Transaction.unsigned
      | .signed, place, json => (ofJson place json).map Transaction.signed)

/-! ## Protocol parameters -/

/-- The parameters read so far. -/
structure ProtocolParameters.Slots where
  tokenSupply : Option UInt64 := none
  minInputs : Option UInt64 := none
  maxInputs : Option UInt64 := none
  minOutputs : Option UInt64 := none
  maxOutputs : Option UInt64 := none
  maxUtxoIndex : Option UInt16 := none

instance : JsonForm ProtocolParameters where
  toJson params := .ofFields
    [("token_supply", toJson params.tokenSupply), ("min_inputs", toJson params.minInputs),
      ("max_inputs", toJson params.maxInputs), ("min_outputs", toJson params.minOutputs),
      ("max_outputs", toJson params.maxOutputs), ("max_utxo_index", toJson params.maxUtxoIndex)]
  ofJson :=
    let standard : ProtocolParameters := {}
    readRecord
      (fun place items => do
        let (tokenSupply, items) ← nextItemD place standard.tokenSupply items
        let (minInputs, items) ← nextItemD place standard.minInputs items
        let (maxInputs, items) ← nextItemD place standard.maxInputs items
        let (minOutputs, items) ← nextItemD place standard.minOutputs items
        let (maxOutputs, items) ← nextItemD place standard.maxOutputs items
        let (maxUtxoIndex, items) ← nextItemD place standard.maxUtxoIndex items
        noMore items
        return { tokenSupply, minInputs, maxInputs, minOutputs, maxOutputs, maxUtxoIndex })
      (fun place members => do
        let slots ← readMembers
          (fun (slots : ProtocolParameters.Slots) key json =>
            match key with
            | "token_supply" =>
              return { slots with tokenSupply := ← readSlot place slots.tokenSupply json }
            | "min_inputs" =>
              return { slots with minInputs := ← readSlot place slots.minInputs json }
            | "max_inputs" =>
              return { slots with maxInputs := ← readSlot place slots.maxInputs json }
            | "min_outputs" =>
              return { slots with minOutputs := ← readSlot place slots.minOutputs json }
            | "max_outputs" =>
              return { slots with maxOutputs := ← readSlot place slots.maxOutputs json }
            | "max_utxo_index" =>
              return { slots with maxUtxoIndex := ← readSlot place slots.maxUtxoIndex json }
            | _ => passOver slots json)
          {} members
        return {
          tokenSupply := slots.tokenSupply.getD standard.tokenSupply
          minInputs := slots.minInputs.getD standard.minInputs
          maxInputs := slots.maxInputs.getD standard.maxInputs
          minOutputs := slots.minOutputs.getD standard.minOutputs
          maxOutputs := slots.maxOutputs.getD standard.maxOutputs
          maxUtxoIndex := slots.maxUtxoIndex.getD standard.maxUtxoIndex })

/-- How a text that is no proper JSON, or describes something else, is worded. -/
def unreadableText : String := "<json>"

/-- The parameters that a text describes, if no transaction is ruled out by them. -/
def ProtocolParameters.ofText (text : String) : Except WireError ProtocolParameters := do
  let params ← (parse text).mapError fun (_ : Misfit) => .invalidParameters unreadableText
  params.validate
  return params

end UtxoWire
