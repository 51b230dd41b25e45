import UtxoWire.Family.Objects
import UtxoWire.Proofs.Json.Form

/-!
# Objects and their descriptions

Nothing is lost in the descriptions of the objects of the wire format and of protocol parameters.
This includes objects that could not be written as bytes, and it tells a payload that is missing
from one that is empty.

Each instance says how deeply descriptions are nested: one level for a tagged value, one for a
record, one for a list.

* `readSingle_readsAs` — records of a single field.
* **`Lossless family.Object 7`** — the objects of every family.
-/

namespace UtxoWire

open JsonForm
open Json (Plain Reordered)

/-! ## Addresses -/

instance : Lossless Ed25519Address 0 where
  plain address := Lossless.plain address.key
  readsAs address := (Lossless.readsAs address.key).map Ed25519Address.mk

instance : Lossless Address 1 where
  plain
    | .ed25519 address => plain_taggedJson (Lossless.plain address)
  readsAs
    | .ed25519 address => readTagged_readsAs (by decide) rfl (Lossless.plain address)
        ((Lossless.readsAs address).map Address.ed25519)

/-! ## Inputs -/

/-- What has been read of an input when these keys have been given. -/
def UtxoInput.slots (input : UtxoInput) (given : List String) : Slots where
  transactionId := filled given "transaction_id" input.transactionId
  outputIndex := filled given "transaction_output_index" input.outputIndex

instance : Lossless UtxoInput 1 where
  plain input := .ofFields
    (forall_mem_two (Lossless.plain input.transactionId) (Lossless.plain input.outputIndex))
  readsAs input := by
    refine readRecord_readsAs input.slots rfl (by simp) ?_ ?_
    · intro place hroom
      refine forall_mem_two ?transactionId ?outputIndex
      case transactionId =>
        exact fillsSlot UtxoInput.Slots.transactionId
          (fun slots field => { slots with transactionId := field }) (fun _ _ => rfl)
          (fun _ => rfl) (fun _ => by simp [UtxoInput.slots, filled]) (Lossless.readsAs _) hroom
      case outputIndex =>
        exact fillsSlot UtxoInput.Slots.outputIndex
          (fun slots field => { slots with outputIndex := field }) (fun _ _ => rfl)
          (fun _ => rfl) (fun _ => by simp [UtxoInput.slots, filled]) (Lossless.readsAs _) hroom
    · intro given hgiven
      simp [UtxoInput.slots, filled, hgiven, required]

instance : Lossless Input 2 where
  plain
    | .utxo input => plain_taggedJson (Lossless.plain input)
  readsAs
    | .utxo input => readTagged_readsAs (by decide) rfl (Lossless.plain input)
        ((Lossless.readsAs input).map Input.utxo)

/-! ## Outputs -/

/-- What has been read of a deposit when these keys have been given. -/
def SingleDeposit.slots (deposit : SingleDeposit) (given : List String) : Slots where
  address := filled given "address" deposit.address
  amount := filled given "amount" deposit.amount

instance : Lossless SingleDeposit 2 where
  plain deposit := .ofFields (forall_mem_two (Lossless.plain deposit.address)
    ((Lossless.plain deposit.amount).mono (Nat.zero_le _)))
  readsAs deposit := by
    refine readRecord_readsAs deposit.slots rfl (by simp) ?_ ?_
    · intro place hroom
      refine forall_mem_two ?address ?amount
      case address =>
        exact fillsSlot SingleDeposit.Slots.address
          (fun slots field => { slots with address := field }) (fun _ _ => rfl) (fun _ => rfl)
          (fun _ => by simp [SingleDeposit.slots, filled]) (Lossless.readsAs _) hroom
      case amount =>
        exact fillsSlot SingleDeposit.Slots.amount
          (fun slots field => { slots with amount := field }) (fun _ _ => rfl) (fun _ => rfl)
          (fun _ => by simp [SingleDeposit.slots, filled]) (Lossless.readsAs _) (Nat.zero_le _)
    · intro given hgiven
      simp [SingleDeposit.slots, filled, hgiven, required]

instance : Lossless Output 3 where
  plain
    | .singleDeposit deposit => plain_taggedJson (Lossless.plain deposit)
  readsAs
    | .singleDeposit deposit => readTagged_readsAs (by decide) rfl (Lossless.plain deposit)
        ((Lossless.readsAs deposit).map Output.singleDeposit)

/-! ## Signatures -/

instance : Lossless WotsSignature 0 where
  plain _ := .null
  readsAs _ := by
    intro json place hjson _
    obtain rfl := hjson.eq_of_scalar nofun nofun
    rfl

/-- What has been read of a signature when these keys have been given. -/
def Ed25519Signature.slots (signature : Ed25519Signature) (given : List String) : Slots where
  publicKey := filled given "public_key" signature.publicKey
  signature := filled given "signature" signature.signature

instance : Lossless Ed25519Signature 1 where
  plain signature := .ofFields
    (forall_mem_two (Lossless.plain signature.publicKey) (Lossless.plain signature.signature))
  readsAs signature := by
    refine readRecord_readsAs signature.slots rfl (by simp) ?_ ?_
    · intro place hroom
      refine forall_mem_two ?publicKey ?signature
      case publicKey =>
        exact fillsSlot Ed25519Signature.Slots.publicKey
          (fun slots field => { slots with publicKey := field }) (fun _ _ => rfl) (fun _ => rfl)
          (fun _ => by simp [Ed25519Signature.slots, filled]) (Lossless.readsAs _) hroom
      case signature =>
        exact fillsSlot Ed25519Signature.Slots.signature
          (fun slots field => { slots with signature := field }) (fun _ _ => rfl) (fun _ => rfl)
          (fun _ => by simp [Ed25519Signature.slots, filled]) (Lossless.readsAs _) hroom
    · intro given hgiven
      simp [Ed25519Signature.slots, filled, hgiven, required]

instance : Lossless Signature 2 where
  plain
    | .wots signature => plain_taggedJson ((Lossless.plain signature).mono (Nat.zero_le _))
    | .ed25519 signature => plain_taggedJson (Lossless.plain signature)
  readsAs
    | .wots signature => readTagged_readsAs (by decide) rfl
        ((Lossless.plain signature).mono (Nat.zero_le _))
        (((Lossless.readsAs signature).map Signature.wots).mono (Nat.zero_le _))
    | .ed25519 signature => readTagged_readsAs (by decide) rfl (Lossless.plain signature)
        ((Lossless.readsAs signature).map Signature.ed25519)

/-! ## Unlock blocks -/

/-- A record of a single field is read as its field is. -/
lemma readSingle_readsAs {α β : Type} {depth : Nat} [JsonForm α] [Lossless α depth] {name : String}
    (wrap : α → β) (value : α) :
    ReadsAs (depth + 1) (readSingle name wrap) (.ofFields [(name, toJson value)]) (wrap value) := by
  refine readRecord_readsAs (fun given => filled given name value) rfl (by simp) ?_ ?_
  · intro place hroom
    refine List.forall_mem_singleton.mpr ?_
    refine fillsSlot id (fun _ field => field) (fun slot json => ?_) (fun _ => rfl)
      (fun _ => by simp [filled]) (Lossless.readsAs _) hroom
    rw [if_pos rfl]
    exact (bind_pure _).symm
  · intro given hgiven
    simp [filled, hgiven, required]

instance : Lossless SignatureUnlockBlock 3 where
  plain block := .ofFields (List.forall_mem_singleton.mpr (Lossless.plain block.signature))
  readsAs block := readSingle_readsAs SignatureUnlockBlock.mk block.signature

instance : Lossless ReferenceUnlockBlock 1 where
  plain block := .ofFields (List.forall_mem_singleton.mpr (Lossless.plain block.reference))
  readsAs block := readSingle_readsAs ReferenceUnlockBlock.mk block.reference

instance : Lossless UnlockBlock 4 where
  plain
    | .signature block => plain_taggedJson (Lossless.plain block)
    | .reference block => plain_taggedJson ((Lossless.plain block).mono (by decide))
  readsAs
    | .signature block => readTagged_readsAs (by decide) rfl (Lossless.plain block)
        ((Lossless.readsAs block).map UnlockBlock.signature)
    | .reference block => readTagged_readsAs (by decide) rfl
        ((Lossless.plain block).mono (by decide))
        (((Lossless.readsAs block).map UnlockBlock.reference).mono (by decide))

/-! ## Transactions -/

namespace UnsignedTransaction

/-- What has been read of a transaction when these keys have been given. -/
def slots (tx : UnsignedTransaction) (given : List String) : Slots where
  inputs := filled given "inputs" tx.inputs
  outputs := filled given "outputs" tx.outputs
  payload := filled given "payload" tx.payload

/-- The member for the payload, if there is one. -/
def payloadField (tx : UnsignedTransaction) : List (String × Json) :=
  (tx.payload.map fun payload => ("payload", toJson payload)).toList

lemma forall_mem_fields {p : String × Json → Prop} (tx : UnsignedTransaction)
    (hinputs : p ("inputs", toJson tx.inputs)) (houtputs : p ("outputs", toJson tx.outputs))
    (hpayload : ∀ payload, tx.payload = some payload → p ("payload", toJson payload)) :
    ∀ field ∈ [("inputs", toJson tx.inputs), ("outputs", toJson tx.outputs)] ++ tx.payloadField,
      p field := by
  refine List.forall_mem_append.mpr ⟨forall_mem_two hinputs houtputs, fun field hfield => ?_⟩
  rw [payloadField, Option.mem_toList, Option.map_eq_some_iff] at hfield
  obtain ⟨payload, hpresent, rfl⟩ := hfield
  exact hpayload payload hpresent

/-- A payload that is there is never described as one that is missing. -/
lemma readsAs_payload (payload : Bytes) :
    ReadsAs 0 ofJson (toJson payload) (some payload) := by
  intro json place hjson hroom
  have hread := Lossless.readsAs payload json place hjson hroom
  obtain rfl := hjson.eq_of_scalar nofun nofun
  show (ofJson place (toJson payload)).map some = .ok (some payload)
  rw [hread]
  rfl

end UnsignedTransaction

instance : Lossless UnsignedTransaction 5 where
  plain tx := .ofFields (tx.forall_mem_fields ((Lossless.plain tx.inputs).mono (by decide))
    (Lossless.plain tx.outputs) fun payload _ => (Lossless.plain payload).mono (Nat.zero_le _))
  readsAs tx := by
    refine readRecord_readsAs tx.slots rfl ?_ ?_ ?_
    · cases tx.payload <;> simp
    · intro place hroom
      refine tx.forall_mem_fields ?inputs ?outputs ?payload
      case inputs =>
        exact fillsSlot UnsignedTransaction.Slots.inputs
          (fun slots field => { slots with inputs := field }) (fun _ _ => rfl) (fun _ => rfl)
          (fun _ => by simp [UnsignedTransaction.slots, filled]) (Lossless.readsAs _)
          (Nat.le_trans (by decide) hroom)
      case outputs =>
        exact fillsSlot UnsignedTransaction.Slots.outputs
          (fun slots field => { slots with outputs := field }) (fun _ _ => rfl) (fun _ => rfl)
          (fun _ => by simp [UnsignedTransaction.slots, filled]) (Lossless.readsAs _) hroom
      case payload =>
        intro payload hpresent
        exact fillsSlot UnsignedTransaction.Slots.payload
          (fun slots field => { slots with payload := field }) (fun _ _ => rfl)
          (fun _ => by rw [UnsignedTransaction.slots, hpresent])
          (fun _ => by simp [UnsignedTransaction.slots, filled, hpresent])
          (UnsignedTransaction.readsAs_payload payload) (Nat.zero_le _)
    · intro given hgiven
      obtain ⟨inputs, outputs, payload⟩ := tx
      cases payload <;> simp [UnsignedTransaction.slots, filled, hgiven, required]

/-- What has been read of a signed transaction when these keys have been given. -/
def SignedTransaction.slots (tx : SignedTransaction) (given : List String) : Slots where
  transaction := filled given "transaction" tx.transaction
  unlockBlocks := filled given "unlock_blocks" tx.unlockBlocks

instance : Lossless SignedTransaction 6 where
  plain tx := .ofFields
    (forall_mem_two (Lossless.plain tx.transaction) (Lossless.plain tx.unlockBlocks))
  readsAs tx := by
    refine readRecord_readsAs tx.slots rfl (by simp) ?_ ?_
    · intro place hroom
      refine forall_mem_two ?transaction ?unlockBlocks
      case transaction =>
        exact fillsSlot SignedTransaction.Slots.transaction
          (fun slots field => { slots with transaction := field }) (fun _ _ => rfl) (fun _ => rfl)
          (fun _ => by simp [SignedTransaction.slots, filled]) (Lossless.readsAs _) hroom
      case unlockBlocks =>
        exact fillsSlot SignedTransaction.Slots.unlockBlocks
          (fun slots field => { slots with unlockBlocks := field }) (fun _ _ => rfl)
          (fun _ => rfl) (fun _ => by simp [SignedTransaction.slots, filled])
          (Lossless.readsAs _) hroom
    · intro given hgiven
      simp [SignedTransaction.slots, filled, hgiven, required]

instance : Lossless Transaction 7 where
  plain
    | .unsigned tx => plain_taggedJson ((Lossless.plain tx).mono (by decide))
    | .signed tx => plain_taggedJson (Lossless.plain tx)
  readsAs
    | .unsigned tx => readTagged_readsAs (by decide) rfl ((Lossless.plain tx).mono (by decide))
        (((Lossless.readsAs tx).map Transaction.unsigned).mono (by decide))
    | .signed tx => readTagged_readsAs (by decide) rfl (Lossless.plain tx)
        ((Lossless.readsAs tx).map Transaction.signed)

/-! ## Protocol parameters -/

/-- What has been read of parameters when these keys have been given. -/
def ProtocolParameters.slots (params : ProtocolParameters) (given : List String) : Slots where
  tokenSupply := filled given "token_supply" params.tokenSupply
  minInputs := filled given "min_inputs" params.minInputs
  maxInputs := filled given "max_inputs" params.maxInputs
  minOutputs := filled given "min_outputs" params.minOutputs
  maxOutputs := filled given "max_outputs" params.maxOutputs
  maxUtxoIndex := filled given "max_utxo_index" params.maxUtxoIndex

instance : Lossless ProtocolParameters 1 where
  plain params := by
    refine .ofFields ?_
    simp only [List.forall_mem_cons]
    exact ⟨Lossless.plain _, Lossless.plain _, Lossless.plain _, Lossless.plain _,
      Lossless.plain _, Lossless.plain _, List.forall_mem_nil _⟩
  readsAs params := by
    refine readRecord_readsAs params.slots rfl (by simp) ?_ ?_
    · intro place hroom
      simp only [List.forall_mem_cons]
      refine ⟨?tokenSupply, ?minInputs, ?maxInputs, ?minOutputs, ?maxOutputs, ?maxUtxoIndex,
        List.forall_mem_nil _⟩
      case tokenSupply =>
        exact fillsSlot ProtocolParameters.Slots.tokenSupply
          (fun slots field => { slots with tokenSupply := field }) (fun _ _ => rfl)
          (fun _ => rfl) (fun _ => by simp [ProtocolParameters.slots, filled])
          (Lossless.readsAs _) hroom
      case minInputs =>
        exact fillsSlot ProtocolParameters.Slots.minInputs
          (fun slots field => { slots with minInputs := field }) (fun _ _ => rfl)
          (fun _ => rfl) (fun _ => by simp [ProtocolParameters.slots, filled])
          (Lossless.readsAs _) hroom
      case maxInputs =>
        exact fillsSlot ProtocolParameters.Slots.maxInputs
          (fun slots field => { slots with maxInputs := field }) (fun _ _ => rfl)
          (fun _ => rfl) (fun _ => by simp [ProtocolParameters.slots, filled])
          (Lossless.readsAs _) hroom
      case minOutputs =>
        exact fillsSlot ProtocolParameters.Slots.minOutputs
          (fun slots field => { slots with minOutputs := field }) (fun _ _ => rfl)
          (fun _ => rfl) (fun _ => by simp [ProtocolParameters.slots, filled])
          (Lossless.readsAs _) hroom
      case maxOutputs =>
        exact fillsSlot ProtocolParameters.Slots.maxOutputs
          (fun slots field => { slots with maxOutputs := field }) (fun _ _ => rfl)
          (fun _ => rfl) (fun _ => by simp [ProtocolParameters.slots, filled])
          (Lossless.readsAs _) hroom
      case maxUtxoIndex =>
        exact fillsSlot ProtocolParameters.Slots.maxUtxoIndex
          (fun slots field => { slots with maxUtxoIndex := field }) (fun _ _ => rfl)
          (fun _ => rfl) (fun _ => by simp [ProtocolParameters.slots, filled])
          (Lossless.readsAs _) hroom
    · -- all members are written, so that no default is needed
      intro given hgiven
      simp [ProtocolParameters.slots, filled, hgiven]

/-! ## All families -/

/-- **The objects of every family are read back from their descriptions.** -/
instance Family.lossless : (family : Family) → Lossless family.Object 7
  | .address => (inferInstance : Lossless Address 1).weaken (by decide)
  | .input => (inferInstance : Lossless Input 2).weaken (by decide)
  | .output => (inferInstance : Lossless Output 3).weaken (by decide)
  | .signature => (inferInstance : Lossless Signature 2).weaken (by decide)
  | .unlockBlock => (inferInstance : Lossless UnlockBlock 4).weaken (by decide)
  | .transaction => (inferInstance : Lossless Transaction 7)

end UtxoWire
