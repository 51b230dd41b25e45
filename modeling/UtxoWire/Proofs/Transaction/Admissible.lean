import UtxoWire.Proofs.Transaction.Draft
import UtxoWire.Proofs.Transaction.Values

/-!
# Limits under which transactions are possible

Whether a network's limits leave room for a transaction at all.  Three things stand in the way: a
least number of inputs above the greatest, the same of outputs, and a least number of outputs above
the supply, since no output deposits nothing.  `ProtocolParameters.validate` looks at the first two
and asks for a supply that is not zero; limits with fewer tokens than outputs pass.  How much memory
a transaction takes is left aside.

* `UnsignedTransaction.Admissible` — a transaction passes all there is to pass under the limits.
* `ProtocolParameters.sampleDraft` — a transaction with as few inputs and outputs as allowed.
* `ProtocolParameters.exists_admissible_iff` — the limits that leave room for a transaction.
* **`ProtocolParameters.exists_admissible_iff_of_validate`** — of limits that pass validation these
  are the ones that allow no more outputs at least than there are tokens.
-/

namespace UtxoWire

/-! ## Admissible transactions -/

namespace UnsignedTransaction

variable {params : ProtocolParameters} {tx : UnsignedTransaction}

/-- Under the limits the transaction is written with validation, read back from all that was
written, and keeps the rules on values. -/
def Admissible (params : ProtocolParameters) (tx : UnsignedTransaction) : Prop :=
  ∃ bytes, tx.encode .validated = .ok bytes ∧
    (decodeInto params .validated bytes).apply default = (.ok bytes.length, tx) ∧
    tx.syntacticallyValid params = .ok ()

/-- What has been read under validation is well-formed. -/
lemma wellFormed_of_decodeInto {data : Bytes} {old : UnsignedTransaction} {n : Nat}
    (h : (decodeInto params .validated data).apply old = (.ok n, tx)) : tx.WellFormed params := by
  rw [decodeInto_follows data old] at h
  cases hread : reader params .validated data with
  | error e =>
      rw [hread] at h
      cases h
  | ok p =>
      rw [hread] at h
      cases h
      obtain ⟨c, -, hc⟩ := headed_validated_iff.mp ((reader_reads _ _ _).mp hread).2
      exact hc.wellFormed.1

/-- What makes a transaction admissible: it is well-formed and keeps the limits. -/
lemma Admissible.wellFormed (h : tx.Admissible params) :
    tx.WellFormed params ∧ tx.WithinLimits params := by
  obtain ⟨bytes, -, hread, hvalid⟩ := h
  exact ⟨wellFormed_of_decodeInto hread, (syntacticallyValid_eq_ok.mp hvalid).toWithinLimits⟩

lemma WellFormed.admissible (h : tx.WellFormed params) (hlimits : tx.WithinLimits params)
    (hinputs : tx.inputs.length < 2 ^ 64) (houtputs : tx.outputs.length < 2 ^ 64)
    (hpayload : (tx.payload.getD []).length < 2 ^ 64) : tx.Admissible params :=
  ⟨_, encode_eq_ok.mpr ⟨fun _ => h.checkEncodable, rfl⟩,
    (h.content_of_fits hinputs houtputs hpayload).decodeInto default,
    syntacticallyValid_eq_ok.mpr (h.valueRules_iff.mpr hlimits)⟩

end UnsignedTransaction

/-- Outputs that deposit something each deposit no less than their number. -/
lemma Output.length_le_sumAmounts {outputs : List Output} (h : ∀ o ∈ outputs, 1 ≤ o.amount) :
    outputs.length ≤ sumAmounts outputs := by
  induction outputs with
  | nil => exact Nat.le_refl 0
  | cons output outputs ih =>
      obtain ⟨houtput, hrest⟩ := List.forall_mem_cons.mp h
      have hle := ih hrest
      have hpos := UInt64.le_iff_toNat_le.mp houtput
      rw [UInt64.toNat_one] at hpos
      rw [List.length_cons, sumAmounts_cons]
      omega

/-! ## A sample -/

/-- The number as a field of 32 bytes. -/
def numbered (n : Nat) : FixedBytes 32 :=
  ⟨toLittleEndian 32 n, length_toLittleEndian 32 n⟩

lemma eq_of_numbered_eq {m n : Nat} (hm : m < 2 ^ 64) (hn : n < 2 ^ 64)
    (h : numbered m = numbered n) : m = n := by
  have hm' : ofLittleEndian (numbered m).bytes = m := ofLittleEndian_toLittleEndian (by omega)
  have hn' : ofLittleEndian (numbered n).bytes = n := ofLittleEndian_toLittleEndian (by omega)
  rw [← hm', h, hn']

/-- As many things as a number of 64 bits, told apart by their numbers, are different. -/
lemma nodup_map_range {α : Type} {f : Nat → α} {count : UInt64}
    (hf : ∀ m n, f m = f n → numbered m = numbered n) :
    ((List.range count.toNat).map f).Nodup := by
  have hlt : ∀ n ∈ List.range count.toNat, n < 2 ^ 64 := fun n hn =>
    Nat.lt_trans (List.mem_range.mp hn) count.toNat_lt
  exact List.nodup_range.map_on fun m hm n hn h =>
    eq_of_numbered_eq (hlt m hm) (hlt n hn) (hf m n h)

namespace ProtocolParameters

variable {params : ProtocolParameters}

/-- An input for each number, which spends the first output of a transaction of its own. -/
def sampleInput (n : Nat) : Input :=
  .utxo ⟨numbered n, 0⟩

/-- An output for each number, which deposits one token to an address of its own. -/
def sampleOutput (n : Nat) : Output :=
  .singleDeposit ⟨.ed25519 ⟨numbered n⟩, 1⟩

/-- A transaction with as few inputs and outputs as the limits allow. -/
def sampleDraft (params : ProtocolParameters) : TransactionDraft where
  inputs := (List.range params.minInputs.toNat).map sampleInput
  outputs := (List.range params.minOutputs.toNat).map sampleOutput

lemma sampleDraft_inputs_length : params.sampleDraft.inputs.length = params.minInputs.toNat := by
  rw [sampleDraft, List.length_map, List.length_range]

lemma sampleDraft_outputs_length :
    params.sampleDraft.outputs.length = params.minOutputs.toNat := by
  rw [sampleDraft, List.length_map, List.length_range]

lemma sampleDraft_outpoints_nodup : (params.sampleDraft.inputs.map Input.outpoint).Nodup := by
  rw [sampleDraft, List.map_map]
  exact nodup_map_range fun _ _ h => (Prod.mk.inj h).1

lemma sampleDraft_addresses_nodup : (params.sampleDraft.outputs.map Output.address).Nodup := by
  rw [sampleDraft, List.map_map]
  exact nodup_map_range fun _ _ h => Ed25519Address.mk.inj (Address.ed25519.inj h)

lemma sampleDraft_sumAmounts :
    Output.sumAmounts params.sampleDraft.outputs = params.minOutputs.toNat := by
  have hone : ((fun output : Output => output.amount.toNat) ∘ sampleOutput) = fun _ => 1 := rfl
  rw [Output.sumAmounts, sampleDraft, List.map_map, hone, List.map_const', List.length_range,
    List.sum_replicate_nat, Nat.mul_one]

/-! ## Room -/

/-- The limits leave room for a transaction: they do not exclude each other, and the fewest outputs
that they allow do not need more tokens than there are. -/
structure LeavesRoom (params : ProtocolParameters) : Prop where
  inputs_le : params.maxInputs = 0 ∨ params.minInputs ≤ params.maxInputs
  outputs_le : params.maxOutputs = 0 ∨ params.minOutputs ≤ params.maxOutputs
  outputs_le_supply : params.minOutputs ≤ params.tokenSupply

/-- The fewest are within the bounds if any number is. -/
lemma withinBounds_min {min max : UInt64} (h : max = 0 ∨ min ≤ max) :
    WithinBounds min max min.toNat :=
  ⟨.inr (Nat.le_refl _), h.imp_right UInt64.le_iff_toNat_le.mp⟩

lemma le_of_withinBounds {min max : UInt64} {count : Nat} (h : WithinBounds min max count) :
    (max = 0 ∨ min ≤ max) ∧ min.toNat ≤ count := by
  obtain ⟨hmin, hmax⟩ := h
  have hle : min.toNat ≤ count := by
    rcases hmin with rfl | hmin
    · exact Nat.zero_le count
    · exact hmin
  exact ⟨hmax.imp_right fun h => UInt64.le_iff_toNat_le.mpr (Nat.le_trans hle h), hle⟩

/-- Where there is room the sample is admissible. -/
lemma LeavesRoom.admissible_sample (h : params.LeavesRoom) :
    params.sampleDraft.finished.Admissible params := by
  -- finishing the draft puts inputs and outputs in order, and changes nothing else
  have hwell : params.sampleDraft.finished.WellFormed params := by
    refine TransactionDraft.finished_wellFormed sampleDraft_outpoints_nodup
      sampleDraft_addresses_nodup nofun ?_ ?_
    · rw [sampleDraft_inputs_length]
      exact withinBounds_min h.inputs_le
    · rw [sampleDraft_outputs_length]
      exact withinBounds_min h.outputs_le
  have hinputs : params.sampleDraft.finished.inputs.Perm params.sampleDraft.inputs :=
    ObjectArray.inOrder_perm _
  have houtputs : params.sampleDraft.finished.outputs.Perm params.sampleDraft.outputs :=
    ObjectArray.inOrder_perm _
  have hlimits : params.sampleDraft.finished.WithinLimits params := by
    refine ⟨fun input hinput => ?_, fun output houtput => ?_, ?_⟩
    · obtain ⟨n, -, rfl⟩ := List.mem_map.mp (hinputs.mem_iff.mp hinput)
      exact UInt16.le_iff_toNat_le.mpr (Nat.zero_le _)
    · obtain ⟨n, hn, rfl⟩ := List.mem_map.mp (houtputs.mem_iff.mp houtput)
      -- an output is there only if one is asked for, and then there is a token for it
      have hpos : 1 ≤ params.minOutputs.toNat := Nat.one_le_of_lt (List.mem_range.mp hn)
      have hsupply := UInt64.le_iff_toNat_le.mp h.outputs_le_supply
      exact ⟨UInt64.le_refl 1, UInt64.le_iff_toNat_le.mpr (Nat.le_trans hpos hsupply)⟩
    · rw [Output.sumAmounts, (houtputs.map _).sum_nat]
      exact sampleDraft_sumAmounts.trans_le (UInt64.le_iff_toNat_le.mp h.outputs_le_supply)
  refine hwell.admissible hlimits ?_ ?_ (Nat.two_pow_pos 64)
  · rw [hinputs.length_eq, sampleDraft_inputs_length]
    exact params.minInputs.toNat_lt
  · rw [houtputs.length_eq, sampleDraft_outputs_length]
    exact params.minOutputs.toNat_lt

/-- An admissible transaction has no fewer outputs than asked for, and deposits no fewer tokens. -/
lemma leavesRoom_of_admissible {tx : UnsignedTransaction} (h : tx.Admissible params) :
    params.LeavesRoom := by
  obtain ⟨hwell, hlimits⟩ := h.wellFormed
  obtain ⟨houtputs, hcount⟩ := le_of_withinBounds hwell.outputs_within
  refine ⟨(le_of_withinBounds hwell.inputs_within).1, houtputs, UInt64.le_iff_toNat_le.mpr ?_⟩
  calc params.minOutputs.toNat
      ≤ tx.outputs.length := hcount
    _ ≤ Output.sumAmounts tx.outputs :=
        Output.length_le_sumAmounts fun output houtput => (hlimits.amount_within output houtput).1
    _ ≤ params.tokenSupply.toNat := hlimits.sum_le

/-- **Which limits leave room for a transaction.** -/
theorem exists_admissible_iff : (∃ tx, UnsignedTransaction.Admissible params tx) ↔
    params.LeavesRoom :=
  ⟨fun ⟨_, h⟩ => leavesRoom_of_admissible h, fun h => ⟨_, h.admissible_sample⟩⟩

/-! ## Validated limits -/

lemma validate_eq_ok : params.validate = .ok () ↔ params.tokenSupply ≠ 0 ∧
    (params.maxInputs = 0 ∨ params.minInputs ≤ params.maxInputs) ∧
    (params.maxOutputs = 0 ∨ params.minOutputs ≤ params.maxOutputs) := by
  rw [validate, check_bind_eq_ok, check_bind_eq_ok, require_eq_ok, require_eq_ok, require_eq_ok]

/-- **Validated limits leave room for a transaction exactly when they do not ask for more outputs
than there are tokens**, which validation does not look at. -/
theorem exists_admissible_iff_of_validate (params : ProtocolParameters)
    (h : params.validate = .ok ()) :
    (∃ tx, UnsignedTransaction.Admissible params tx) ↔ params.minOutputs ≤ params.tokenSupply := by
  obtain ⟨-, hinputs, houtputs⟩ := validate_eq_ok.mp h
  rw [exists_admissible_iff]
  exact ⟨LeavesRoom.outputs_le_supply, fun hsupply => ⟨hinputs, houtputs, hsupply⟩⟩

/-- Two inputs at least, and three outputs at least for three tokens. -/
theorem exists_admissible_three :
    let params : ProtocolParameters := { tokenSupply := 3, minInputs := 2, minOutputs := 3 }
    params.validate = .ok () ∧ ∃ tx, UnsignedTransaction.Admissible params tx := by
  intro params
  have hvalidate : params.validate = .ok () := by decide
  exact ⟨hvalidate, (exists_admissible_iff_of_validate params hvalidate).mpr (by decide)⟩

/-- Two outputs at least for a single token: the limits pass, but nothing is admissible. -/
theorem validate_without_room :
    let params : ProtocolParameters := { tokenSupply := 1, minOutputs := 2 }
    params.validate = .ok () ∧ ¬ ∃ tx, UnsignedTransaction.Admissible params tx := by
  intro params
  refine ⟨by decide, fun hadmissible => ?_⟩
  have hroom : params.LeavesRoom := exists_admissible_iff.mp hadmissible
  exact absurd hroom.outputs_le_supply (by decide)

end ProtocolParameters

end UtxoWire
