import UtxoWire.Proofs.RoundTrip
import UtxoWire.Proofs.Transaction.Values

/-!
# Reading, checking and writing agree

A transaction meets rules three times: when it is read under validation, when its values are
checked, and when it is written under validation.  The three ask for some of the same things, each
in an order of its own, and none of them undoes what another has said.

* `WireError.OverLimit` — the failures over the limits of the network, which reading does not know.
* `Transaction.WellFormed.syntacticallyValid_failsOnly` — after reading nothing else can fail.
* `Transaction.exists_encode_of_valid` — what passes the check of values can be written, unless its
  payload is there but empty.
* **`Transaction.layers_agree`** — both together.
-/

namespace UtxoWire

/-! ## Limits -/

namespace WireError

/-- An output index above the highest allowed, an amount of zero or above the supply, amounts that
are above it together, or that do not even fit into 64 bits. -/
def isLimit : WireError → Bool
  | .invalidReference .. | .invalidDepositAmount .. | .supplyExceeded .. | .supplySumExceeded ..
  | .integerOverflow .. => true
  | _ => false

/-- The failure is over a limit, and wrapped in no name. -/
def OverLimit (e : WireError) : Prop := e.isLimit = true

end WireError

open WireError (OverLimit)

/-! ## After reading -/

namespace UnsignedTransaction

variable {params bounds : ProtocolParameters} {tx : UnsignedTransaction}

/-- Of the two checks on inputs the one for repetitions accepts them, so the other is all that can
fail. -/
lemma WellFormed.inputs_failsOnly (h : tx.WellFormed bounds) (max : UInt16) :
    FailsOnly OverLimit
      (validate tx.inputs [Input.referenceBounds max, Input.uniqueReferences]) := by
  refine Validator.validate_failsOnly fun v hv => ?_
  rcases List.mem_pair.mp hv with rfl | rfl
  · exact .inr fun _ _ _ _ => Input.boundsCheck_failsOnly rfl
  · have hunique := Input.validate_uniqueReferences.mpr
      (nodup_reference_of_ascending h.inputs_ascending)
    exact .inl (Validator.validate_singleton_eq_ok.mp hunique)

lemma WellFormed.outputs_failsOnly (h : tx.WellFormed bounds) (supply : UInt64) :
    FailsOnly OverLimit (validate tx.outputs
      [Output.uniqueAddresses, Output.depositAmounts supply, Output.depositSum supply]) := by
  refine Validator.validate_failsOnly fun v hv => ?_
  simp only [List.mem_cons, List.not_mem_nil, or_false] at hv
  rcases hv with rfl | rfl | rfl
  · have hunique := Output.validate_uniqueAddresses.mpr h.addresses_nodup
    exact .inl (Validator.validate_singleton_eq_ok.mp hunique)
  · exact .inr fun _ _ _ _ => Output.amountCheck_failsOnly rfl rfl
  · exact .inr fun _ _ _ _ => Output.sumCheck_failsOnly (fun _ => rfl) fun _ => rfl

lemma WellFormed.syntacticallyValid_failsOnly (h : tx.WellFormed bounds) :
    FailsOnly OverLimit (tx.syntacticallyValid params) :=
  .bind (h.inputs_failsOnly _) fun _ => h.outputs_failsOnly _

end UnsignedTransaction

/-- **Once a transaction has been read, the limits are all that its check can fail for.** -/
theorem Transaction.WellFormed.syntacticallyValid_failsOnly {params bounds : ProtocolParameters}
    {tx : Transaction} {bytes : Bytes} (h : tx.WellFormed bounds)
    (hbytes : tx.encode .structural = .ok bytes) :
    FailsOnly OverLimit (tx.syntacticallyValid params) := by
  cases tx with
  | unsigned tx => exact UnsignedTransaction.WellFormed.syntacticallyValid_failsOnly h
  | signed tx =>
      rcases SignedTransaction.encode_eq_ok.mp hbytes with ⟨-, b, hb, -⟩
      have hunlock := SignedTransaction.WellFormed.check h hb
      refine .bind h.transaction.syntacticallyValid_failsOnly fun _ => ?_
      rw [hunlock]
      exact .ok ()

/-! ## Before writing -/

namespace UnsignedTransaction

variable {params : ProtocolParameters} {tx : UnsignedTransaction}

/-- Of the checks in front of writing, the check of values leaves the one on the payload. -/
lemma checkEncodable_of_valid (h : tx.syntacticallyValid params = .ok ()) :
    tx.checkEncodable = require (tx.payload ≠ some []) (.invalidLength .min 1 0) := by
  have hrules := syntacticallyValid_eq_ok.mp h
  have hinputs := Input.validate_uniqueReferences.mpr
    (Input.nodup_reference_iff.mpr hrules.outpoints_nodup)
  have houtputs := Output.validate_uniqueAddresses.mpr hrules.addresses_nodup
  rw [checkEncodable, hinputs, houtputs, ok_bind, ok_bind]

lemma exists_encode_of_valid (h : tx.syntacticallyValid params = .ok ())
    (hpayload : tx.payload ≠ some []) : ∃ bytes, tx.encode .validated = .ok bytes := by
  refine ⟨_, encode_eq_ok.mpr ⟨fun _ => ?_, rfl⟩⟩
  rw [checkEncodable_of_valid h]
  exact require_eq_ok.mpr hpayload

lemma encode_emptyPayload (h : tx.syntacticallyValid params = .ok ())
    (hpayload : tx.payload = some []) :
    tx.encode .validated = .error (.invalidLength .min 1 0) := by
  have hcheck : tx.checkEncodable = .error (.invalidLength .min 1 0) := by
    rw [checkEncodable_of_valid h, hpayload]
    rfl
  rw [encode, Mode.check, hcheck, error_bind]

end UnsignedTransaction

namespace SignedTransaction

variable {params : ProtocolParameters} {tx : SignedTransaction}

/-- To compare signatures is to write them, so that blocks which have passed their check can be
written. -/
lemma exists_writesBlocks_of_check {inputs : List Input} {blocks : List UnlockBlock}
    (h : checkUnlockBlocks inputs blocks = .ok ()) : ∃ b, WritesBlocks blocks b := by
  have hwritten : ∃ b, ObjectArray.encode UnlockBlock.codec .validated blocks = .ok b := by
    refine ObjectArray.exists_encode_iff.mpr fun block hblock => ?_
    refine UnlockBlock.exists_encode_iff.mpr ?_
    rintro ⟨s, hs, hone⟩
    exact Signature.exists_encode_iff.mp ((checkUnlockBlocks_eq_ok.mp h).2 block hblock s hs) hone
  rcases hwritten with ⟨b, hb⟩
  exact ⟨b, encode_blocks_eq_ok.mp hb⟩

lemma exists_encode_of_valid (h : tx.syntacticallyValid params = .ok ())
    (hpayload : tx.transaction.payload ≠ some []) :
    ∃ bytes, tx.encode .validated = .ok bytes := by
  rcases check_bind_eq_ok.mp h with ⟨hvalues, hblocks⟩
  rcases UnsignedTransaction.exists_encode_of_valid hvalues hpayload with ⟨bytes, hbytes⟩
  rcases exists_writesBlocks_of_check hblocks with ⟨b, hb⟩
  have hcheck := (UnsignedTransaction.encode_eq_ok.mp hbytes).1
  exact ⟨_, encode_eq_ok.mpr ⟨fun hmode => ⟨hblocks, hcheck hmode⟩, b, hb, rfl⟩⟩

lemma encode_emptyPayload (h : tx.syntacticallyValid params = .ok ())
    (hpayload : tx.transaction.payload = some []) : tx.encode .validated
      = .error (.inEntity UnsignedTransaction.typeName (.invalidLength .min 1 0)) := by
  rcases check_bind_eq_ok.mp h with ⟨hvalues, hblocks⟩
  rw [encode, Mode.check, hblocks, ok_bind,
    UnsignedTransaction.encode_emptyPayload hvalues hpayload]
  rfl

end SignedTransaction

/-- **What passes the check of values can be written, unless its payload is there but empty.** -/
theorem Transaction.exists_encode_of_valid {params : ProtocolParameters} {tx : Transaction}
    (h : tx.syntacticallyValid params = .ok ()) (hpayload : tx.unsignedPart.payload ≠ some []) :
    ∃ bytes, tx.encode .validated = .ok bytes := by
  cases tx with
  | unsigned tx => exact UnsignedTransaction.exists_encode_of_valid h hpayload
  | signed tx => exact SignedTransaction.exists_encode_of_valid h hpayload

lemma Transaction.encode_emptyPayload {params : ProtocolParameters} {tx : Transaction}
    (h : tx.syntacticallyValid params = .ok ()) (hpayload : tx.unsignedPart.payload = some []) :
    ∃ e, tx.encode .validated = .error e ∧ e.rootCause = .invalidLength .min 1 0 := by
  cases tx with
  | unsigned tx => exact ⟨_, UnsignedTransaction.encode_emptyPayload h hpayload, rfl⟩
  | signed tx => exact ⟨_, SignedTransaction.encode_emptyPayload h hpayload, rfl⟩

/-- **Reading, checking and writing agree.**  A transaction that has been read under validation, by
whatever parameters, fails its check for a limit or not at all: nothing is repeated in it, its
unlock blocks unlock its inputs, and its signatures can be compared.  And any transaction that
passes the check is written under validation, unless its payload is there but empty: that is then
what it fails for. -/
theorem Transaction.layers_agree (params params' : ProtocolParameters) :
    (∀ data tx n e, (codec params).decode .validated data = .ok (tx, n) →
      tx.syntacticallyValid params' = .error e → e.isLimit = true) ∧
    (∀ tx : Transaction, tx.syntacticallyValid params' = .ok () →
      (tx.unsignedPart.payload ≠ some [] → ∃ bytes, tx.encode .validated = .ok bytes) ∧
      (tx.unsignedPart.payload = some [] →
        ∃ e, tx.encode .validated = .error e ∧ e.rootCause = .invalidLength .min 1 0)) := by
  refine ⟨fun data tx n e hdecode he => ?_, fun tx hvalid => ?_⟩
  · rcases (reader_reads data tx n).mp hdecode with ⟨-, hform⟩
    rcases hform.wellFormed with ⟨hwell, hencode⟩
    exact hwell.syntacticallyValid_failsOnly hencode e he
  · exact ⟨exists_encode_of_valid hvalid, encode_emptyPayload hvalid⟩

/-- A transaction that is read where no inputs are asked for, and deposits nothing; and one that
passes the check, with a payload and with an empty one. -/
theorem Transaction.layers_agree_deposit :
    let params : ProtocolParameters := { minInputs := 0 }
    let data : Bytes := 0 :: 0 :: 1 :: 0 :: 1 :: List.replicate 32 0 ++ List.replicate 8 0 ++ [0]
    let deposit (amount : UInt64) (payload : Option Bytes) : Transaction :=
      .unsigned { outputs := [.singleDeposit ⟨default, amount⟩], payload }
    ((codec params).decode .validated data = .ok (deposit 0 none, 46) ∧
      (deposit 0 none).syntacticallyValid {} = .error (.invalidDepositAmount 0 0) ∧
      (WireError.invalidDepositAmount 0 0).isLimit = true) ∧
    ((deposit 5 (some [7])).syntacticallyValid {} = .ok () ∧
      ∃ bytes, (deposit 5 (some [7])).encode .validated = .ok bytes) ∧
    ((deposit 5 (some [])).syntacticallyValid {} = .ok () ∧
      ∃ e, (deposit 5 (some [])).encode .validated = .error e ∧
        e.rootCause = .invalidLength .min 1 0) := by
  intro params data deposit
  rcases layers_agree params {} with ⟨hread, hwrite⟩
  have hdecode : (codec params).decode .validated data = .ok (deposit 0 none, 46) := by
    decide +kernel
  have hlimit : (deposit 0 none).syntacticallyValid {} = .error (.invalidDepositAmount 0 0) := by
    decide +kernel
  have hfull : (deposit 5 (some [7])).syntacticallyValid {} = .ok () := by decide +kernel
  have hempty : (deposit 5 (some [])).syntacticallyValid {} = .ok () := by decide +kernel
  exact ⟨⟨hdecode, hlimit, hread _ _ _ _ hdecode hlimit⟩,
    ⟨hfull, (hwrite _ hfull).1 (by decide)⟩, ⟨hempty, (hwrite _ hempty).2 rfl⟩⟩

end UtxoWire
