import UtxoWire.Proofs.ObjectArray.Sorting
import UtxoWire.Proofs.RoundTrip
import UtxoWire.Proofs.Transaction.Encodable
import UtxoWire.Transaction.Draft

/-!
# Finished drafts

What comes of a draft.  The steps that made it matter only by the inputs and outputs they add, in
whatever order, and by the last payload they set; and what is written of the finished transaction
can be read back, under validation as well unless its content is against the rules.

* `TransactionDraft.ofSteps_eq` — the draft that steps make.
* `TransactionDraft.finished` — the transaction that a draft is finished as.
* `TransactionDraft.finished_wellFormed` — it is well-formed wherever its content allows.
* **`TransactionDraft.build_reads_back`** — all of this together.
-/

namespace UtxoWire

open ObjectArray (inOrder inOrder_perm)

/-! ## The order of inputs and outputs -/

lemma Input.encode_injective : Function.Injective Input.encode := by
  intro a b h
  exact Input.reader_reads.unambiguous.eq_of_form (Input.form_validated_iff.mpr rfl)
    (Input.form_validated_iff.mpr h)

lemma Output.encode_injective : Function.Injective Output.encode := by
  intro a b h
  exact Output.reader_reads.unambiguous.eq_of_form (Output.form_validated_iff.mpr rfl)
    (Output.form_validated_iff.mpr h)

/-- Inputs that spend different outputs have different wire forms. -/
lemma Input.nodup_encode {inputs : List Input} (h : (inputs.map outpoint).Nodup) :
    (inputs.map encode).Nodup :=
  (h.of_map _).map encode_injective

/-- Outputs that deposit to different addresses have different wire forms. -/
lemma Output.nodup_encode {outputs : List Output} (h : (outputs.map address).Nodup) :
    (outputs.map encode).Nodup :=
  (h.of_map _).map encode_injective

namespace TransactionDraft

/-! ## Steps -/

/-- The input that a step adds. -/
def Step.input? : Step → Option Input
  | .input added => some added
  | _ => none

/-- The output that a step adds. -/
def Step.output? : Step → Option Output
  | .output added => some added
  | _ => none

/-- The payload that a step sets, which may be empty. -/
def Step.payload? : Step → Option Bytes
  | .payload chosen => some chosen
  | _ => none

/-- The inputs that steps add. -/
def addedInputs (steps : List Step) : List Input :=
  steps.filterMap Step.input?

/-- The outputs that steps add. -/
def addedOutputs (steps : List Step) : List Output :=
  steps.filterMap Step.output?

/-- The payload that was set last, unless it is empty. -/
def lastPayload (steps : List Step) : Option Bytes :=
  (steps.filterMap Step.payload?).getLast?.filter (· ≠ [])

/-- The draft that steps make. -/
lemma ofSteps_eq (steps : List Step) :
    ofSteps steps = ⟨addedInputs steps, addedOutputs steps, lastPayload steps⟩ := by
  induction steps using List.reverseRecOn with
  | nil => rfl
  | append_singleton steps step ih =>
      rw [ofSteps] at ih
      rw [ofSteps, List.foldl_append, ih]
      cases step with
      | input input =>
          simp [apply, addInput, addedInputs, addedOutputs, lastPayload, Step.input?, Step.output?,
            Step.payload?]
      | output output =>
          simp [apply, addOutput, addedInputs, addedOutputs, lastPayload, Step.input?,
            Step.output?, Step.payload?]
      | payload payload =>
          by_cases hempty : payload = [] <;>
            simp [apply, setPayload, addedInputs, addedOutputs, lastPayload, Step.input?,
              Step.output?, Step.payload?, Option.filter, hempty]

/-! ## The finished transaction -/

/-- The transaction that a draft is finished as. -/
def finished (draft : TransactionDraft) : UnsignedTransaction where
  inputs := inOrder Input.codec draft.inputs
  outputs := inOrder Output.codec draft.outputs
  payload := draft.payload

/-- Every draft can be finished. -/
lemma build_eq (draft : TransactionDraft) : draft.build = .ok draft.finished := by
  have hinputs : ObjectArray.sort Input.codec draft.inputs
      = .ok (inOrder Input.codec draft.inputs) :=
    ObjectArray.sort_eq_ok.mpr ⟨fun _ _ => ⟨_, rfl⟩, rfl⟩
  have houtputs : ObjectArray.sort Output.codec draft.outputs
      = .ok (inOrder Output.codec draft.outputs) :=
    ObjectArray.sort_eq_ok.mpr ⟨fun _ _ => ⟨_, rfl⟩, rfl⟩
  rw [build, hinputs, houtputs]
  rfl

/-- The order in which inputs and outputs were added does not matter. -/
lemma finished_eq_of_perm {draft draft' : TransactionDraft}
    (hinputs : draft.inputs.Perm draft'.inputs) (houtputs : draft.outputs.Perm draft'.outputs)
    (hpayload : draft.payload = draft'.payload) : draft.finished = draft'.finished := by
  have hinputsKey : Function.Injective (ObjectArray.sortKey Input.codec) := Input.encode_injective
  have houtputsKey : Function.Injective (ObjectArray.sortKey Output.codec) :=
    Output.encode_injective
  rw [finished, finished, hpayload, ObjectArray.inOrder_eq_of_perm hinputsKey hinputs,
    ObjectArray.inOrder_eq_of_perm houtputsKey houtputs]

/-- The finished transaction is well-formed, if the content of the draft does not break the rules
and the bounds are kept: different outpoints and addresses make the order a strict one. -/
lemma finished_wellFormed {params : ProtocolParameters} {draft : TransactionDraft}
    (houtpoints : (draft.inputs.map Input.outpoint).Nodup)
    (haddresses : (draft.outputs.map Output.address).Nodup) (hpayload : draft.payload ≠ some [])
    (hinputs : WithinBounds params.minInputs params.maxInputs draft.inputs.length)
    (houtputs : WithinBounds params.minOutputs params.maxOutputs draft.outputs.length) :
    draft.finished.WellFormed params := by
  have hinputsKey : (draft.inputs.map (ObjectArray.sortKey Input.codec)).Nodup :=
    Input.nodup_encode houtpoints
  have houtputsKey : (draft.outputs.map (ObjectArray.sortKey Output.codec)).Nodup :=
    Output.nodup_encode haddresses
  exact
    { payload_ne := hpayload
      inputs_within := by rwa [finished, (inOrder_perm draft.inputs).length_eq]
      outputs_within := by rwa [finished, (inOrder_perm draft.outputs).length_eq]
      inputs_ascending := ObjectArray.inOrder_strictly_ascending hinputsKey
      outputs_ascending := ObjectArray.inOrder_strictly_ascending houtputsKey
      addresses_nodup := ((inOrder_perm draft.outputs).map _).nodup_iff.mpr haddresses }

end TransactionDraft

/-! ## Reading back -/

namespace UnsignedTransaction

variable {params : ProtocolParameters} {mode : Mode} {tx : UnsignedTransaction}

/-- What is written of a transaction whose content can be read is read back, whatever was there. -/
lemma Content.decodeInto (h : tx.Content params mode tx.content) (old : UnsignedTransaction) :
    (decodeInto params mode (Varint.encode discriminant ++ tx.content)).apply old
      = (.ok (Varint.encode discriminant ++ tx.content).length, tx) := by
  have hform : Headed mode discriminant (tx.Content params mode)
      (Varint.encode discriminant ++ tx.content) :=
    ⟨_, _, rfl, ⟨discriminant, Varint.Form.encode _ _, fun _ => rfl⟩, h⟩
  have hread := reader_reads.apply_append hform []
  rw [List.append_nil] at hread
  rw [decodeInto_follows _ old, hread]
  simp only [Nat.zero_add]

/-- Where the bounds are kept a well-formed transaction is read back under validation, and elsewhere
it is refused for the number of its inputs or outputs. -/
lemma WellFormed.decodeInto {bounds : ProtocolParameters} (h : tx.WellFormed bounds)
    (hlen : tx.content.length < 2 ^ 64) (params : ProtocolParameters) (old : UnsignedTransaction) :
    let bytes := Varint.encode discriminant ++ tx.content
    let within := WithinBounds params.minInputs params.maxInputs tx.inputs.length ∧
      WithinBounds params.minOutputs params.maxOutputs tx.outputs.length
    (within → (decodeInto params .validated bytes).apply old = (.ok bytes.length, tx)) ∧
    (¬ within → ∃ array bound limit count, (decodeInto params .validated bytes).apply old
      = (.error (.countOutOfBounds array bound limit count), old)) := by
  refine ⟨fun hwithin => ?_, fun hout => ?_⟩
  · have hwell : tx.WellFormed params :=
      { h with inputs_within := hwithin.1, outputs_within := hwithin.2 }
    exact (hwell.content hlen).decodeInto old
  · obtain ⟨array, bound, limit, count, hread⟩ := h.reader_countOutOfBounds hlen hout
    refine ⟨array, bound, limit, count, ?_⟩
    rw [decodeInto_follows _ old, hread]

end UnsignedTransaction

namespace TransactionDraft

variable {draft : TransactionDraft}

/-- Without validation the finished transaction is read back, whatever is in it. -/
lemma finished_reads_back (hpayload : draft.payload ≠ some []) :
    ∃ bytes, draft.finished.encode .structural = .ok bytes ∧
      (bytes.length < 2 ^ 64 → ∀ params old,
        (UnsignedTransaction.decodeInto params .structural bytes).apply old
          = (.ok bytes.length, draft.finished)) := by
  refine ⟨_, UnsignedTransaction.encode_eq_ok.mpr ⟨nofun, rfl⟩, fun hlen params old => ?_⟩
  rw [List.length_append] at hlen
  exact (UnsignedTransaction.content_structural hpayload (by omega)).decodeInto old

/-- Under validation it is written unless its content is against the rules, and then read back by
whoever allows that many inputs and outputs. -/
lemma finished_reads_back_validated (houtpoints : (draft.inputs.map Input.outpoint).Nodup)
    (haddresses : (draft.outputs.map Output.address).Nodup) (hpayload : draft.payload ≠ some []) :
    ∃ bytes, draft.finished.encode .validated = .ok bytes ∧
      (bytes.length < 2 ^ 64 → ∀ params old,
        let within := WithinBounds params.minInputs params.maxInputs draft.inputs.length ∧
          WithinBounds params.minOutputs params.maxOutputs draft.outputs.length
        (within → (UnsignedTransaction.decodeInto params .validated bytes).apply old
          = (.ok bytes.length, draft.finished)) ∧
        (¬ within → ∃ array bound limit count,
          (UnsignedTransaction.decodeInto params .validated bytes).apply old
            = (.error (.countOutOfBounds array bound limit count), old))) := by
  -- parameters without bounds on the numbers
  let unbounded : ProtocolParameters :=
    { minInputs := 0, maxInputs := 0, minOutputs := 0, maxOutputs := 0 }
  have hwell : draft.finished.WellFormed unbounded :=
    finished_wellFormed houtpoints haddresses hpayload (by simp [WithinBounds, unbounded])
      (by simp [WithinBounds, unbounded])
  refine ⟨_, UnsignedTransaction.encode_eq_ok.mpr ⟨fun _ => hwell.checkEncodable, rfl⟩,
    fun hlen params old => ?_⟩
  rw [List.length_append] at hlen
  rw [← (inOrder_perm draft.inputs).length_eq, ← (inOrder_perm draft.outputs).length_eq]
  exact hwell.decodeInto (by omega) params old

lemma lastPayload_ne (steps : List Step) : lastPayload steps ≠ some [] := by
  simp [lastPayload, Option.filter_eq_some_iff]

/-- **Every draft is finished as a transaction that can be read back.**  It holds what the steps add
and the payload set last, and depends on nothing else.  Without validation it is read back from what
is written of it.  Under validation it is not written if the steps add two inputs that spend the
same output, or else two outputs to the same address; if it is written, it is read back by whoever
allows that many inputs and outputs, and refused for their number by everyone else.  To be read at
all the bytes have to be so few that their number is one of 64 bits. -/
theorem build_reads_back (steps : List Step) :
    ∃ tx, (ofSteps steps).build = .ok tx ∧
      tx.inputs.Perm (addedInputs steps) ∧ tx.outputs.Perm (addedOutputs steps) ∧
      tx.payload = lastPayload steps ∧
      (∀ steps', (addedInputs steps').Perm (addedInputs steps) →
        (addedOutputs steps').Perm (addedOutputs steps) → lastPayload steps' = lastPayload steps →
        (ofSteps steps').build = .ok tx) ∧
      (∃ bytes, tx.encode .structural = .ok bytes ∧ (bytes.length < 2 ^ 64 → ∀ params old,
        (UnsignedTransaction.decodeInto params .structural bytes).apply old
          = (.ok bytes.length, tx))) ∧
      (let outpoints := (addedInputs steps).map Input.outpoint
       let addresses := (addedOutputs steps).map Output.address
       (¬ outpoints.Nodup →
         ∃ index first, tx.encode .validated = .error (.duplicateReference index first)) ∧
       (outpoints.Nodup → ¬ addresses.Nodup →
         ∃ index first, tx.encode .validated = .error (.duplicateDeposit index first)) ∧
       (outpoints.Nodup → addresses.Nodup →
         ∃ bytes, tx.encode .validated = .ok bytes ∧ (bytes.length < 2 ^ 64 → ∀ params old,
           let within := WithinBounds params.minInputs params.maxInputs (addedInputs steps).length ∧
             WithinBounds params.minOutputs params.maxOutputs (addedOutputs steps).length
           (within → (UnsignedTransaction.decodeInto params .validated bytes).apply old
             = (.ok bytes.length, tx)) ∧
           (¬ within → ∃ array bound limit count,
             (UnsignedTransaction.decodeInto params .validated bytes).apply old
               = (.error (.countOutOfBounds array bound limit count), old))))) := by
  have hinputs : (inOrder Input.codec (addedInputs steps)).Perm (addedInputs steps) :=
    inOrder_perm _
  have houtputs : (inOrder Output.codec (addedOutputs steps)).Perm (addedOutputs steps) :=
    inOrder_perm _
  have hpayload := lastPayload_ne steps
  rw [ofSteps_eq]
  refine ⟨_, build_eq _, hinputs, houtputs, rfl, fun steps' hinputs' houtputs' hpayload' => ?_,
    finished_reads_back hpayload, fun hrepeated => ?_, fun houtpoints hrepeated => ?_,
    fun houtpoints haddresses => finished_reads_back_validated houtpoints haddresses hpayload⟩
  · rw [ofSteps_eq, build_eq, hpayload']
    exact congrArg Except.ok (finished_eq_of_perm hinputs' houtputs' rfl)
  · rw [← (hinputs.map _).nodup_iff] at hrepeated
    exact UnsignedTransaction.encode_duplicateReference hrepeated
  · rw [← (hinputs.map _).nodup_iff] at houtpoints
    rw [← (houtputs.map _).nodup_iff] at hrepeated
    exact UnsignedTransaction.encode_duplicateDeposit houtpoints hrepeated

/-- An input and an output with a payload that is taken away again; and the same with the input added
once more. -/
theorem build_reads_back_single :
    let input : Input := .utxo ⟨default, 3⟩
    let output : Output := .singleDeposit ⟨.ed25519 ⟨⟨List.replicate 32 1, rfl⟩⟩, 5⟩
    let steps : List Step := [.payload [7], .output output, .input input, .payload []]
    let tx : UnsignedTransaction := { inputs := [input], outputs := [output] }
    ((ofSteps steps).build = .ok tx ∧
      ∃ bytes, tx.encode .validated = .ok bytes ∧
        (UnsignedTransaction.decodeInto {} .validated bytes).apply default
          = (.ok bytes.length, tx)) ∧
    (∃ twice index first, (ofSteps (.input input :: steps)).build = .ok twice ∧
      twice.encode .validated = .error (.duplicateReference index first)) := by
  intro input output steps tx
  obtain ⟨⟨inputs, outputs, payload⟩, hbuild, hinputs, houtputs, hpayload, -, -, -, -, hread⟩ :=
    build_reads_back steps
  obtain rfl : inputs = [input] := List.perm_singleton.mp hinputs
  obtain rfl : outputs = [output] := List.perm_singleton.mp houtputs
  obtain rfl : payload = none := hpayload
  obtain ⟨bytes, hencode, hread⟩ := hread (by decide) (by decide)
  have hlen : bytes.length = 81 := by
    have hbytes : (tx.encode .validated).map List.length = .ok 81 := by decide +kernel
    rw [hencode] at hbytes
    exact Except.ok.inj hbytes
  have hwithin : WithinBounds 1 126 1 := ⟨.inr (by decide), .inr (by decide)⟩
  have hread := (hread (by omega) {} default).1 ⟨hwithin, hwithin⟩
  obtain ⟨twice, hbuild', -, -, -, -, -, hrepeated, -⟩ := build_reads_back (.input input :: steps)
  obtain ⟨index, first, hrefused⟩ := hrepeated (by decide)
  exact ⟨⟨hbuild, bytes, hencode, hread⟩, twice, index, first, hbuild', hrefused⟩

end TransactionDraft

end UtxoWire
