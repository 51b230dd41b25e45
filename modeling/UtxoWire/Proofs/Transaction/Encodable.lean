import UtxoWire.Proofs.Transaction

/-!
# What a transaction has to satisfy to be written under validation

A transaction is written in one way or not at all.  Validation decides which: it has no bearing on
the bytes.  What it asks is less than what it asks of a transaction that is read, since neither the
number nor the order of inputs and outputs is looked at.

* `Input.outpoint` — the output that an input spends.  Inputs are told apart by the bytes that name
  it, which comes to the same: `Input.reference_eq_iff`.
* `UnsignedTransaction.Encodable`, `SignedTransaction.Encodable` — the rules.
* **`Transaction.encode_validated_iff`** — to write under validation is to write without it and to
  satisfy the rules.
-/

namespace UtxoWire

/-! ## Outpoints -/

/-- The output that an input spends: the transaction that created it, and its place there. -/
def Input.outpoint : Input → TransactionId × UInt16
  | .utxo input => (input.transactionId, input.outputIndex)

lemma toLittleEndian_word16_inj {v w : UInt16}
    (h : toLittleEndian 2 v.toNat = toLittleEndian 2 w.toNat) : v = w := by
  have hread := congrArg ofLittleEndian h
  rw [ofLittleEndian_toLittleEndian v.toNat_lt, ofLittleEndian_toLittleEndian w.toNat_lt] at hread
  exact UInt16.toNat_inj.mp hread

lemma Input.reference_eq_iff {a b : Input} : a.reference = b.reference ↔ a.outpoint = b.outpoint := by
  rcases a with ⟨id, place⟩
  rcases b with ⟨id', place'⟩
  simp only [reference, UtxoInput.reference, outpoint, Prod.mk.injEq]
  constructor
  · intro h
    rcases List.append_inj h (id.length_eq.trans id'.length_eq.symm) with ⟨hid, hplace⟩
    exact ⟨FixedBytes.eq_of_bytes_eq hid, toLittleEndian_word16_inj hplace⟩
  · rintro ⟨rfl, rfl⟩
    rfl

lemma Input.nodup_reference_iff {inputs : List Input} :
    (inputs.map reference).Nodup ↔ (inputs.map outpoint).Nodup := by
  simp only [List.Nodup, List.pairwise_map, ne_eq, reference_eq_iff]

/-! ## The rules -/

/-- The rules for writing an unsigned transaction: no output is spent twice, no address deposited to
twice, and a payload that is there is not empty. -/
structure UnsignedTransaction.Encodable (tx : UnsignedTransaction) : Prop where
  outpoints_nodup : (tx.inputs.map Input.outpoint).Nodup
  addresses_nodup : (tx.outputs.map Output.address).Nodup
  payload_ne : tx.payload ≠ some []

/-- The rules for writing a signed transaction: those for the transaction inside, and that the
unlock blocks unlock its inputs. -/
structure SignedTransaction.Encodable (tx : SignedTransaction) : Prop where
  transaction : tx.transaction.Encodable
  unlocks : UnlockBlock.Unlocks tx.transaction.inputs.length tx.unlockBlocks

/-- The rules for writing a transaction. -/
def Transaction.Encodable : Transaction → Prop
  | .unsigned tx => tx.Encodable
  | .signed tx => tx.Encodable

lemma UnsignedTransaction.checkEncodable_iff {tx : UnsignedTransaction} :
    tx.checkEncodable = .ok () ↔ tx.Encodable := by
  rw [checkEncodable_eq_ok, Input.nodup_reference_iff]
  constructor
  · rintro ⟨hinputs, houtputs, hpayload⟩
    exact ⟨hinputs, houtputs, hpayload⟩
  · rintro ⟨hinputs, houtputs, hpayload⟩
    exact ⟨hinputs, houtputs, hpayload⟩

/-- An output spent twice is what is wrong with a transaction in the first place. -/
lemma UnsignedTransaction.encode_duplicateReference {tx : UnsignedTransaction}
    (h : ¬ (tx.inputs.map Input.outpoint).Nodup) :
    ∃ index first, tx.encode .validated = .error (.duplicateReference index first) := by
  rw [← Input.nodup_reference_iff, ← Input.validate_uniqueReferences] at h
  cases hinputs : validate tx.inputs [Input.uniqueReferences] with
  | ok _ => exact absurd hinputs h
  | error e =>
      obtain ⟨index, first, rfl⟩ := Validator.duplicate_of_validate_unique hinputs
      exact ⟨index, first, by rw [encode, Mode.check, checkEncodable, hinputs]; rfl⟩

/-- An address deposited to twice is what is wrong with a transaction that spends no output twice. -/
lemma UnsignedTransaction.encode_duplicateDeposit {tx : UnsignedTransaction}
    (hinputs : (tx.inputs.map Input.outpoint).Nodup) (h : ¬ (tx.outputs.map Output.address).Nodup) :
    ∃ index first, tx.encode .validated = .error (.duplicateDeposit index first) := by
  rw [← Input.nodup_reference_iff, ← Input.validate_uniqueReferences] at hinputs
  rw [← Output.validate_uniqueAddresses] at h
  cases houtputs : validate tx.outputs [Output.uniqueAddresses] with
  | ok _ => exact absurd houtputs h
  | error e =>
      obtain ⟨index, first, rfl⟩ := Validator.duplicate_of_validate_unique houtputs
      exact ⟨index, first, by rw [encode, Mode.check, checkEncodable, hinputs, houtputs]; rfl⟩

/-- Unlock blocks that can be written pass their check exactly when they unlock the inputs: no
signature among them lacks a wire form. -/
lemma SignedTransaction.checkUnlockBlocks_iff {inputs : List Input} {blocks : List UnlockBlock}
    {bytes : Bytes} (h : WritesBlocks blocks bytes) :
    checkUnlockBlocks inputs blocks = .ok () ↔ UnlockBlock.Unlocks inputs.length blocks := by
  rw [checkUnlockBlocks_eq_ok]
  exact and_iff_left h.encode_signature

/-- **To write under validation is to write without it and to satisfy the rules.**  Either way the
bytes are the same. -/
theorem Transaction.encode_validated_iff (tx : Transaction) (bytes : Bytes) :
    tx.encode .validated = .ok bytes ↔ tx.encode .structural = .ok bytes ∧ tx.Encodable := by
  cases tx with
  | unsigned tx =>
      simp only [encode, Encodable, UnsignedTransaction.encode_eq_ok,
        UnsignedTransaction.checkEncodable_iff, reduceCtorEq, forall_const, false_implies, true_and]
      exact and_comm
  | signed tx =>
      simp only [encode, Encodable, SignedTransaction.encode_eq_ok,
        UnsignedTransaction.checkEncodable_iff, reduceCtorEq, forall_const, false_implies, true_and]
      constructor
      · rintro ⟨⟨hblocks, htransaction⟩, b, hb, rfl⟩
        have hunlocks := (SignedTransaction.checkUnlockBlocks_iff hb).mp hblocks
        exact ⟨⟨b, hb, rfl⟩, htransaction, hunlocks⟩
      · rintro ⟨⟨b, hb, rfl⟩, htransaction, hunlocks⟩
        have hblocks := (SignedTransaction.checkUnlockBlocks_iff hb).mpr hunlocks
        exact ⟨⟨hblocks, htransaction⟩, b, hb, rfl⟩

end UtxoWire
