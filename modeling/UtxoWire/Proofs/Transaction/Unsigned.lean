import UtxoWire.Proofs.Input
import UtxoWire.Proofs.ObjectArray
import UtxoWire.Proofs.Output
import UtxoWire.Proofs.Validator
import UtxoWire.Transaction.Unsigned

/-!
# Unsigned transactions

The reader of unsigned transactions, part by part, and the forms it takes.

* `arrayReader` — the reader of an array under rules and a check; inputs and outputs are read so.
* `inputsReader`, `outputsReader`, `payloadReader` — the readers of the parts.
* `decodeInto_follows` — the function that reads a transaction does what its reader does.
* **`reader_reads`** — the forms of a transaction are those of its parts, one after the other.
* `WellFormed` — what validation asks of a transaction on top of its structure.
-/

namespace UtxoWire.UnsignedTransaction

open Reader (Steady Reads)

variable {params : ProtocolParameters} {mode : Mode}

/-! ## Arrays under a check -/

section

variable {α : Type} {codec : Codec α} {rules : ArrayRules} {check : List α → Except WireError Unit}

/-- The reader of an array that is held against rules and a check under validation. -/
def arrayReader (codec : Codec α) (mode : Mode) (rules : ArrayRules)
    (check : List α → Except WireError Unit) : Reader (List α) := do
  let objects ← ObjectArray.reader codec mode (rulesIn mode rules)
  mode.check (check objects)
  return objects

lemma arrayReader_apply (hcodec : Steady (codec.reader mode)) (data : Bytes) :
    arrayReader codec mode rules check data = do
      let (objects, length) ← ObjectArray.decode codec mode (rulesIn mode rules) data
      mode.check (check objects)
      return (objects, length) := by
  rw [arrayReader, Reader.check_apply, ObjectArray.decode_eq hcodec]

lemma arrayReader_steady (hcodec : Steady (codec.reader mode)) :
    Steady (arrayReader codec mode rules check) :=
  (ObjectArray.reader_steady hcodec _).bind fun _ => (Steady.lift _).bind fun _ => .pure _

lemma arrayReader_reads {form : α → Bytes → Prop} (hcodec : Reads (codec.reader mode) form) :
    Reads (arrayReader codec mode rules check) fun objects bytes =>
      ObjectArray.Form form mode (rulesIn mode rules) objects bytes ∧
        (mode = .validated → check objects = .ok ()) := by
  refine ((ObjectArray.reader_reads hcodec _).bind_check _).congr fun objects _ => ?_
  rw [Mode.check_eq_ok]

end

/-! ## Parts -/

def inputsReader (params : ProtocolParameters) (mode : Mode) : Reader (List Input) :=
  ⟨readInputs params mode⟩

def outputsReader (params : ProtocolParameters) (mode : Mode) : Reader (List Output) :=
  ⟨readOutputs params mode⟩

def payloadReader (mode : Mode) : Reader (Option Bytes) :=
  ⟨readPayload mode⟩

lemma inputsReader_eq : inputsReader params mode = arrayReader Input.codec mode params.inputRules
    fun inputs => validate inputs [Input.uniqueReferences] := by
  ext data
  rw [arrayReader_apply Input.reader_steady]
  rfl

lemma outputsReader_eq : outputsReader params mode = arrayReader Output.codec mode
    params.outputRules fun outputs => validate outputs [Output.uniqueAddresses] := by
  ext data
  rw [arrayReader_apply Output.reader_steady]
  rfl

/-- The bytes of a payload of this length; none if the length is zero. -/
def payloadBytes (length : UInt64) : Reader (Option Bytes) :=
  if length = 0 then pure none
  else do
    let payload ← Reader.fixed length.toNat
    return some payload.bytes

lemma payloadReader_eq : payloadReader mode = (do
    let length ← Reader.number fun length size =>
      mode.check (Varint.requireMinimal "payload length" length size)
    payloadBytes length) := by
  ext data
  show readPayload mode data = _
  rw [readPayload, Reader.bind_apply, Reader.number_apply]
  cases hd : Varint.decode data with
  | error e => rfl
  | ok p =>
      have hlen : p.2 ≤ data.length := Varint.reader_steady.le_length hd
      simp only [ok_bind]
      cases mode.check (Varint.requireMinimal "payload length" p.1 p.2) with
      | error e => rfl
      | ok _ =>
          simp only [ok_bind, pure_eq_ok, payloadBytes]
          split
          · rfl
          · rw [Bytes.skip_eq_ok hlen, ok_bind]
            by_cases hn : p.1.toNat ≤ (data.drop p.2).length
            · rw [Reader.bind_of_ok (Reader.fixed_eq_ok hn), requireAtLeast_eq_ok.mpr hn,
                Bytes.first_eq_ok hn]
              rfl
            · have hfixed : Reader.fixed p.1.toNat (data.drop p.2)
                  = .error (.invalidLength .min p.1.toNat (data.drop p.2).length) := by
                rw [Reader.fixed_apply, dif_neg hn]
              rw [Reader.bind_of_error hfixed, requireAtLeast, require, if_neg hn]
              rfl

lemma inputsReader_steady : Steady (inputsReader params mode) := by
  rw [inputsReader_eq]
  exact arrayReader_steady Input.reader_steady

lemma outputsReader_steady : Steady (outputsReader params mode) := by
  rw [outputsReader_eq]
  exact arrayReader_steady Output.reader_steady

lemma payloadReader_steady : Steady (payloadReader mode) := by
  rw [payloadReader_eq]
  refine (Reader.number_steady _).bind fun length => ?_
  unfold payloadBytes
  split
  · exact .pure none
  · exact (Steady.fixed _).bind fun _ => .pure _

/-! ## The transaction -/

def reader (params : ProtocolParameters) (mode : Mode) : Reader UnsignedTransaction := do
  Reader.discriminant mode .transaction discriminant
  let inputs ← inputsReader params mode
  let outputs ← outputsReader params mode
  let payload ← payloadReader mode
  return { inputs, outputs, payload }

lemma decodeInto_follows (data : Bytes) :
    (decodeInto params mode data).Follows (reader params mode) data 0 := by
  unfold decodeInto reader
  refine .discriminant fun length => ?_
  refine .read (inputsReader params mode) fun inputs n hinputs => ?_
  refine .silent (Bytes.skip_eq_ok (inputsReader_steady.le_length hinputs)) ?_
  refine .read (outputsReader params mode) fun outputs m houtputs => ?_
  refine .silent (Bytes.skip_eq_ok (outputsReader_steady.le_length houtputs)) ?_
  refine .read (payloadReader mode) fun payload k _ => .done _ _ rfl fun _ => ?_
  rw [Nat.zero_add]
  rfl

lemma reader_steady : Steady (reader params mode) :=
  Reader.discriminant_steady.bind fun _ => inputsReader_steady.bind fun _ =>
    outputsReader_steady.bind fun _ => payloadReader_steady.bind fun _ => .pure _

/-! ## Forms -/

/-- The forms of the inputs.  Under validation no two of them spend the same output. -/
def InputsForm (params : ProtocolParameters) (mode : Mode) (inputs : List Input) (bytes : Bytes) :
    Prop :=
  ObjectArray.Form (Input.Form mode) mode (rulesIn mode params.inputRules) inputs bytes ∧
    (mode = .validated → (inputs.map Input.reference).Nodup)

/-- The forms of the outputs.  Under validation no two of them deposit to the same address. -/
def OutputsForm (params : ProtocolParameters) (mode : Mode) (outputs : List Output)
    (bytes : Bytes) : Prop :=
  ObjectArray.Form (Output.Form mode) mode (rulesIn mode params.outputRules) outputs bytes ∧
    (mode = .validated → (outputs.map Output.address).Nodup)

/-- The forms of the payload.  A payload that is there has bytes. -/
def PayloadForm (mode : Mode) : Option Bytes → Bytes → Prop
  | none, bytes => Varint.Form mode 0 bytes
  | some payload, bytes => ∃ length prefixed, bytes = prefixed ++ payload ∧
      Varint.Form mode length prefixed ∧ payload.length = length.toNat ∧ length ≠ 0

/-- What follows the discriminant of an unsigned transaction. -/
def Content (params : ProtocolParameters) (mode : Mode) (tx : UnsignedTransaction)
    (bytes : Bytes) : Prop :=
  ∃ i o p, bytes = i ++ (o ++ p) ∧ InputsForm params mode tx.inputs i ∧
    OutputsForm params mode tx.outputs o ∧ PayloadForm mode tx.payload p

lemma inputsReader_reads : Reads (inputsReader params mode) (InputsForm params mode) := by
  rw [inputsReader_eq]
  refine (arrayReader_reads Input.reader_reads).congr fun inputs _ => ?_
  rw [InputsForm, Input.validate_uniqueReferences]

lemma outputsReader_reads : Reads (outputsReader params mode) (OutputsForm params mode) := by
  rw [outputsReader_eq]
  refine (arrayReader_reads Output.reader_reads).congr fun outputs _ => ?_
  rw [OutputsForm, Output.validate_uniqueAddresses]

lemma payloadBytes_reads (length : UInt64) :
    Reads (payloadBytes length) fun payload bytes =>
      (length = 0 ∧ payload = none ∧ bytes = []) ∨
        (length ≠ 0 ∧ payload = some bytes ∧ bytes.length = length.toNat) := by
  unfold payloadBytes
  split
  case isTrue hzero =>
    refine (Reads.pure none).congr fun payload bytes => ?_
    simp [hzero]
  case isFalse hsome =>
    refine ((Reads.fixed _).map _).congr fun payload bytes => ?_
    constructor
    · rintro ⟨field, rfl, rfl⟩
      exact .inr ⟨hsome, rfl, field.length_eq⟩
    · rintro (⟨hzero, -⟩ | ⟨-, rfl, hlen⟩)
      · exact absurd hzero hsome
      · exact ⟨⟨bytes, hlen⟩, rfl, rfl⟩

lemma payloadReader_reads : Reads (payloadReader mode) (PayloadForm mode) := by
  rw [payloadReader_eq]
  refine ((Reader.number_reads _).bind payloadBytes_reads).congr fun payload bytes => ?_
  simp only [Mode.check_eq_ok, Varint.requireMinimal_eq_ok]
  constructor
  · rintro ⟨length, s, t, rfl, hs, ⟨rfl, rfl, rfl⟩ | ⟨hsome, rfl, hlen⟩⟩
    · rw [List.append_nil]
      exact hs
    · exact ⟨length, s, rfl, hs, hlen, hsome⟩
  · intro h
    cases payload with
    | none => exact ⟨0, bytes, [], (List.append_nil _).symm, h, .inl ⟨rfl, rfl, rfl⟩⟩
    | some payload =>
        obtain ⟨length, s, rfl, hs, hlen, hsome⟩ := h
        exact ⟨length, s, payload, rfl, hs, .inr ⟨hsome, rfl, hlen⟩⟩

/-- **The forms of an unsigned transaction**: a discriminant, the inputs, the outputs and the
payload. -/
theorem reader_reads : Reads (reader params mode) fun tx =>
    Headed mode discriminant (tx.Content params mode) := by
  refine Reads.headed ((inputsReader_reads.bind fun _ => outputsReader_reads.bind fun _ =>
    payloadReader_reads.map _).congr fun tx bytes => ?_)
  constructor
  · rintro ⟨inputs, i, _, rfl, hi, outputs, o, p, rfl, ho, payload, rfl, hp⟩
    exact ⟨i, o, p, rfl, hi, ho, hp⟩
  · rintro ⟨i, o, p, rfl, hi, ho, hp⟩
    exact ⟨tx.inputs, i, _, rfl, hi, tx.outputs, o, p, rfl, ho, tx.payload, rfl, hp⟩

/-! ## Writing -/

/-- What follows the discriminant when a transaction is written. -/
def content (tx : UnsignedTransaction) : Bytes :=
  ObjectArray.written Input.encode tx.inputs ++
    (ObjectArray.written Output.encode tx.outputs ++ encodePayload tx.payload)

/-- A transaction is written in one way, and under validation only if the check in front lets it
pass. -/
theorem encode_eq_ok {tx : UnsignedTransaction} {bytes : Bytes} :
    tx.encode mode = .ok bytes ↔
      (mode = .validated → tx.checkEncodable = .ok ()) ∧
        bytes = Varint.encode discriminant ++ tx.content := by
  have hinputs : ObjectArray.encode Input.codec mode tx.inputs
      = .ok (ObjectArray.written Input.encode tx.inputs) :=
    ObjectArray.encode_written (fun _ => rfl) _
  have houtputs : ObjectArray.encode Output.codec mode tx.outputs
      = .ok (ObjectArray.written Output.encode tx.outputs) :=
    ObjectArray.encode_written (fun _ => rfl) _
  rw [encode, check_bind_eq_ok, Mode.check_eq_ok, hinputs, houtputs, ok_bind, ok_bind, pure_eq_ok,
    Except.ok.injEq, eq_comm (b := bytes), content]
  simp only [List.append_assoc]

lemma checkEncodable_eq_ok {tx : UnsignedTransaction} :
    tx.checkEncodable = .ok () ↔ (tx.inputs.map Input.reference).Nodup ∧
      (tx.outputs.map Output.address).Nodup ∧ tx.payload ≠ some [] := by
  rw [checkEncodable, check_bind_eq_ok, check_bind_eq_ok, Input.validate_uniqueReferences,
    Output.validate_uniqueAddresses, require_eq_ok]

/-! ## Validation -/

/-- What validation asks of an unsigned transaction. -/
structure WellFormed (params : ProtocolParameters) (tx : UnsignedTransaction) : Prop where
  payload_ne : tx.payload ≠ some []
  inputs_within : WithinBounds params.minInputs params.maxInputs tx.inputs.length
  outputs_within : WithinBounds params.minOutputs params.maxOutputs tx.outputs.length
  inputs_ascending : (tx.inputs.map Input.encode).Pairwise (· < ·)
  outputs_ascending : (tx.outputs.map Output.encode).Pairwise (· < ·)
  addresses_nodup : (tx.outputs.map Output.address).Nodup

/-- Inputs in order spend different outputs. -/
lemma nodup_reference_of_ascending {inputs : List Input}
    (h : (inputs.map Input.encode).Pairwise (· < ·)) : (inputs.map Input.reference).Nodup := by
  rw [List.pairwise_map] at h
  rw [List.Nodup, List.pairwise_map]
  refine h.imp fun {a b} hlt heq => ?_
  have hencode : a.encode = b.encode := by
    cases a
    cases b
    exact congrArg (Varint.encode UtxoInput.discriminant ++ ·) heq
  rw [hencode] at hlt
  exact List.lt_irrefl _ hlt

/-- Inputs that have been read as an array spend different outputs, by their order alone. -/
lemma nodup_reference_of_decode {data : Bytes} {inputs : List Input} {n : Nat}
    (h : ObjectArray.decode Input.codec .validated (some params.inputRules) data
      = .ok (inputs, n)) : (inputs.map Input.reference).Nodup := by
  rw [ObjectArray.decode_eq Input.reader_steady] at h
  obtain ⟨-, hform⟩ := (ObjectArray.reader_reads Input.reader_reads _ _ _ _).mp h
  have hencode : ∀ input, Input.codec.encode .validated input = .ok input.encode := fun _ => rfl
  rw [ObjectArray.form_validated_written hencode fun _ _ => Input.form_validated_iff] at hform
  exact nodup_reference_of_ascending (hform.2.2.2 rfl)

lemma WellFormed.checkEncodable {tx : UnsignedTransaction} (h : tx.WellFormed params) :
    tx.checkEncodable = .ok () :=
  checkEncodable_eq_ok.mpr
    ⟨nodup_reference_of_ascending h.inputs_ascending, h.addresses_nodup, h.payload_ne⟩

lemma inputsForm_validated_iff {inputs : List Input} {bytes : Bytes} :
    InputsForm params .validated inputs bytes ↔
      bytes = ObjectArray.written Input.encode inputs ∧ inputs.length < 2 ^ 64 ∧
        WithinBounds params.minInputs params.maxInputs inputs.length ∧
        (inputs.map Input.encode).Pairwise (· < ·) := by
  have hencode : ∀ input, Input.codec.encode .validated input = .ok input.encode := fun _ => rfl
  rw [InputsForm, rulesIn, ObjectArray.form_validated_written hencode fun _ _ =>
    Input.form_validated_iff]
  constructor
  · rintro ⟨⟨rfl, hfits, hwithin, hasc⟩, -⟩
    exact ⟨rfl, hfits, hwithin, hasc rfl⟩
  · rintro ⟨rfl, hfits, hwithin, hasc⟩
    exact ⟨⟨rfl, hfits, hwithin, fun _ => hasc⟩, fun _ => nodup_reference_of_ascending hasc⟩

lemma outputsForm_validated_iff {outputs : List Output} {bytes : Bytes} :
    OutputsForm params .validated outputs bytes ↔
      bytes = ObjectArray.written Output.encode outputs ∧ outputs.length < 2 ^ 64 ∧
        WithinBounds params.minOutputs params.maxOutputs outputs.length ∧
        (outputs.map Output.encode).Pairwise (· < ·) ∧ (outputs.map Output.address).Nodup := by
  have hencode : ∀ output, Output.codec.encode .validated output = .ok output.encode :=
    fun _ => rfl
  rw [OutputsForm, rulesIn, ObjectArray.form_validated_written hencode fun _ _ =>
    Output.form_validated_iff]
  constructor
  · rintro ⟨⟨rfl, hfits, hwithin, hasc⟩, hnodup⟩
    exact ⟨rfl, hfits, hwithin, hasc rfl, hnodup rfl⟩
  · rintro ⟨rfl, hfits, hwithin, hasc, hnodup⟩
    exact ⟨⟨rfl, hfits, hwithin, fun _ => hasc⟩, fun _ => hnodup⟩

/-- The payload has the form that is written, unless it is there but empty: then it has none. -/
lemma payloadForm_validated_iff {payload : Option Bytes} {bytes : Bytes} :
    PayloadForm .validated payload bytes ↔
      bytes = encodePayload payload ∧ (payload.getD []).length < 2 ^ 64 ∧ payload ≠ some [] := by
  cases payload with
  | none =>
      rw [PayloadForm, Varint.form_validated_iff]
      simp [encodePayload, Varint.encode]
  | some payload =>
      simp only [PayloadForm, Varint.form_validated_iff, encodePayload, Option.getD_some, ne_eq,
        Option.some.injEq]
      constructor
      · rintro ⟨length, _, rfl, rfl, hlen, hsome⟩
        refine ⟨by rw [hlen, Varint.encode], by rw [hlen]; exact length.toNat_lt, ?_⟩
        rintro rfl
        exact hsome (UInt64.toNat_inj.mp hlen.symm)
      · rintro ⟨rfl, hfits, hsome⟩
        have hlen : (UInt64.ofNat payload.length).toNat = payload.length := by
          rw [UInt64.toNat_ofNat', Nat.mod_eq_of_lt hfits]
        refine ⟨UInt64.ofNat payload.length, _, by rw [Varint.encode, hlen], rfl, hlen.symm, ?_⟩
        intro hzero
        rw [hzero] at hlen
        exact hsome (List.eq_nil_of_length_eq_zero hlen.symm)

/-- Under validation only a well-formed transaction is read, and from what is written of it. -/
theorem Content.wellFormed {tx : UnsignedTransaction} {bytes : Bytes}
    (h : tx.Content params .validated bytes) : tx.WellFormed params ∧ bytes = tx.content := by
  obtain ⟨i, o, p, rfl, hi, ho, hp⟩ := h
  obtain ⟨rfl, -, hinputs, hinputsAsc⟩ := inputsForm_validated_iff.mp hi
  obtain ⟨rfl, -, houtputs, houtputsAsc, hnodup⟩ := outputsForm_validated_iff.mp ho
  obtain ⟨rfl, -, hpayload⟩ := payloadForm_validated_iff.mp hp
  exact ⟨⟨hpayload, hinputs, houtputs, hinputsAsc, houtputsAsc, hnodup⟩, rfl⟩

/-- Under validation a well-formed transaction is read from what is written of it, as long as the
numbers in it fit into 64 bits. -/
lemma WellFormed.content_of_fits {tx : UnsignedTransaction} (h : tx.WellFormed params)
    (hinputs : tx.inputs.length < 2 ^ 64) (houtputs : tx.outputs.length < 2 ^ 64)
    (hpayload : (tx.payload.getD []).length < 2 ^ 64) : tx.Content params .validated tx.content :=
  ⟨_, _, _, rfl,
    inputsForm_validated_iff.mpr ⟨rfl, hinputs, h.inputs_within, h.inputs_ascending⟩,
    outputsForm_validated_iff.mpr ⟨rfl, houtputs, h.outputs_within, h.outputs_ascending,
      h.addresses_nodup⟩,
    payloadForm_validated_iff.mpr ⟨rfl, hpayload, h.payload_ne⟩⟩

/-- The numbers fit as long as the length does. -/
theorem WellFormed.content {tx : UnsignedTransaction} (h : tx.WellFormed params)
    (hlen : tx.content.length < 2 ^ 64) : tx.Content params .validated tx.content := by
  have hinputs := ObjectArray.length_lt_written Input.encode_ne_nil tx.inputs
  have houtputs := ObjectArray.length_lt_written Output.encode_ne_nil tx.outputs
  have hpayload : (tx.payload.getD []).length ≤ (encodePayload tx.payload).length := by
    rw [encodePayload, List.length_append]
    exact Nat.le_add_left _ _
  rw [UnsignedTransaction.content, List.length_append, List.length_append] at hlen
  exact h.content_of_fits (by omega) (by omega) (by omega)

/-! ## Other bounds -/

lemma arrayReader_countOutOfBounds {α : Type} {codec : Codec α} {rules : ArrayRules}
    {check : List α → Except WireError Unit} {f : α → Bytes} {objects : List α}
    (hfits : objects.length < 2 ^ 64) (h : ¬ WithinBounds rules.min rules.max objects.length)
    (rest : Bytes) :
    ∃ array bound limit count,
      arrayReader codec .validated rules check (ObjectArray.written f objects ++ rest)
        = .error (.countOutOfBounds array bound limit count) := by
  have hread : ∃ bound limit, ObjectArray.reader codec .validated (some rules)
      (ObjectArray.written f objects ++ rest)
        = .error (.countOutOfBounds rules.name bound limit (UInt64.ofNat objects.length)) := by
    rw [ObjectArray.written, List.append_assoc]
    exact ObjectArray.reader_countOutOfBounds hfits h _
  obtain ⟨bound, limit, hread⟩ := hread
  exact ⟨_, bound, limit, _, Reader.bind_of_error hread⟩

lemma inputsReader_countOutOfBounds {inputs : List Input} (hfits : inputs.length < 2 ^ 64)
    (h : ¬ WithinBounds params.minInputs params.maxInputs inputs.length) (rest : Bytes) :
    ∃ array bound limit count,
      inputsReader params .validated (ObjectArray.written Input.encode inputs ++ rest)
        = .error (.countOutOfBounds array bound limit count) := by
  rw [inputsReader_eq]
  exact arrayReader_countOutOfBounds hfits h rest

lemma outputsReader_countOutOfBounds {outputs : List Output} (hfits : outputs.length < 2 ^ 64)
    (h : ¬ WithinBounds params.minOutputs params.maxOutputs outputs.length) (rest : Bytes) :
    ∃ array bound limit count,
      outputsReader params .validated (ObjectArray.written Output.encode outputs ++ rest)
        = .error (.countOutOfBounds array bound limit count) := by
  rw [outputsReader_eq]
  exact arrayReader_countOutOfBounds hfits h rest

/-- A transaction that is well-formed but for the number of its inputs or outputs is refused for
that. -/
theorem WellFormed.reader_countOutOfBounds {bounds : ProtocolParameters} {tx : UnsignedTransaction}
    (h : tx.WellFormed bounds) (hlen : tx.content.length < 2 ^ 64)
    (hout : ¬ (WithinBounds params.minInputs params.maxInputs tx.inputs.length ∧
      WithinBounds params.minOutputs params.maxOutputs tx.outputs.length)) :
    ∃ array bound limit count, reader params .validated (Varint.encode discriminant ++ tx.content)
      = .error (.countOutOfBounds array bound limit count) := by
  have hinputsLen := ObjectArray.length_lt_written Input.encode_ne_nil tx.inputs
  have houtputsLen := ObjectArray.length_lt_written Output.encode_ne_nil tx.outputs
  have hheader : Reader.discriminant .validated .transaction discriminant
      (Varint.encode discriminant ++ tx.content) = .ok ((), (Varint.encode discriminant).length) :=
    Reader.discriminant_reads.apply_append ⟨_, Varint.Form.encode _ _, fun _ => rfl⟩ _
  rw [reader, Reader.bind_of_ok hheader, List.drop_left]
  rw [UnsignedTransaction.content, List.length_append, List.length_append] at hlen
  rw [UnsignedTransaction.content]
  by_cases hinputs : WithinBounds params.minInputs params.maxInputs tx.inputs.length
  · have hread : inputsReader params .validated (ObjectArray.written Input.encode tx.inputs ++
        (ObjectArray.written Output.encode tx.outputs ++ encodePayload tx.payload))
          = .ok (tx.inputs, (ObjectArray.written Input.encode tx.inputs).length) :=
      inputsReader_reads.apply_append
        (inputsForm_validated_iff.mpr ⟨rfl, by omega, hinputs, h.inputs_ascending⟩) _
    obtain ⟨array, bound, limit, count, hrefused⟩ := outputsReader_countOutOfBounds (by omega)
      (fun houtputs => hout ⟨hinputs, houtputs⟩) (encodePayload tx.payload)
    refine ⟨array, bound, limit, count, ?_⟩
    rw [Reader.bind_of_ok hread, List.drop_left, Reader.bind_of_error hrefused]
    rfl
  · obtain ⟨array, bound, limit, count, hrefused⟩ := inputsReader_countOutOfBounds (by omega)
      hinputs (ObjectArray.written Output.encode tx.outputs ++ encodePayload tx.payload)
    refine ⟨array, bound, limit, count, ?_⟩
    rw [Reader.bind_of_error hrefused]
    rfl

end UtxoWire.UnsignedTransaction
