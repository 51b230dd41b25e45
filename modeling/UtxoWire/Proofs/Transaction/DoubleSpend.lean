import UtxoWire.Proofs.Failures
import UtxoWire.Proofs.Transaction.Encodable

/-!
# No output is spent twice

Validation asks for inputs in order, and compares each only with the one before it.  No more is
needed for them to spend different outputs: the order is strict, so that the bytes of any two
differ, and an input has no more than one form.  This is settled as soon as the inputs have been
read, whatever becomes of the rest.  The check that is made of it afterwards never fails.

* `PartOf` — one thing is read in the course of reading another.
* `UnsignedTransaction.inputsOf`, `SignedTransaction.inputsOf`, `Transaction.inputsOf` — reading up
  to the point where it has the inputs.
* **`Transaction.decode_validated_spendsOnce`** — the inputs that reading comes by spend different
  outputs, and no reading fails because they do not.
-/

namespace UtxoWire

variable {α β γ : Type}

/-! ## Reading a part -/

/-- A part is read in the course of reading the whole: where it cannot be read the whole cannot, for
the same reason, and where the whole is read the part stands in it. -/
structure PartOf (part : Except WireError β) (whole : Except WireError (α × Nat)) (get : α → β) :
    Prop where
  error : ∀ e, part = .error e → whole = .error e
  ok : ∀ a n, whole = .ok (a, n) → part = .ok (get a)

namespace PartOf

variable {part : Except WireError β} {whole : Except WireError (α × Nat)} {get : α → β}

/-- What is read is a part of itself. -/
lemma self (outcome : Except WireError (α × Nat)) :
    PartOf (do let (a, _) ← outcome; return a) outcome fun a => a where
  error e h := by
    cases outcome with
    | error e' =>
        cases h
        rfl
    | ok p => cases h
  ok a n h := by
    rw [h]
    rfl

lemma bind {step : Except WireError γ} {part : γ → Except WireError β}
    {whole : γ → Except WireError (α × Nat)} (h : ∀ c, PartOf (part c) (whole c) get) :
    PartOf (step >>= part) (step >>= whole) get := by
  cases step with
  | error e =>
      refine ⟨fun _ he => ?_, nofun⟩
      cases he
      rfl
  | ok c => exact h c

lemma map {get' : γ → β} {f : α × Nat → γ × Nat} (h : PartOf part whole get)
    (hf : ∀ p, get' (f p).1 = get p.1) : PartOf part (whole.map f) get' where
  error e he := map_eq_error.mpr (h.error e he)
  ok c n hc := by
    rcases map_eq_ok.mp hc with ⟨p, hp, hfp⟩
    rw [h.ok p.1 p.2 hp, ← hf, hfp]

lemma mapError (rename : WireError → WireError) (h : PartOf part whole get) :
    PartOf (part.mapError rename) (whole.mapError rename) get where
  error e he := by
    rcases mapError_eq_error.mp he with ⟨cause, hcause, hname⟩
    exact mapError_eq_error.mpr ⟨cause, h.error cause hcause, hname⟩
  ok a n ha := mapError_eq_ok.mpr (h.ok a n (mapError_eq_ok.mp ha))

/-- What is read after the part leaves it as it is. -/
lemma followed {first : Reader α} {next : α → Reader γ} {get' : γ → β} {data : Bytes}
    (h : PartOf part (first data) get)
    (hnext : ∀ a rest c n, next a rest = .ok (c, n) → get' c = get a) :
    PartOf part ((first >>= next) data) get' where
  error e he := Reader.bind_of_error (h.error e he)
  ok c n hc := by
    rcases Reader.bind_eq_ok.mp hc with ⟨a, m, k, ha, hrest, -⟩
    rw [h.ok a m ha, hnext a _ c k hrest]

end PartOf

/-! ## Reading the inputs -/

/-- Reads an unsigned transaction until its inputs have been read. -/
def UnsignedTransaction.inputsOf (params : ProtocolParameters) (data : Bytes) :
    Except WireError (List Input) := do
  let (body, _) ← readDiscriminant .validated .transaction discriminant data
  let (inputs, _) ← ObjectArray.decode Input.codec .validated (some params.inputRules) body
  return inputs

/-- Reads a signed transaction until the inputs of the transaction inside have been read. -/
def SignedTransaction.inputsOf (params : ProtocolParameters) (data : Bytes) :
    Except WireError (List Input) := do
  let (body, _) ← readDiscriminant .validated .transaction discriminant data
  (UnsignedTransaction.inputsOf params body).mapError (.inEntity UnsignedTransaction.typeName)

/-- Reads a transaction of either kind until its inputs have been read. -/
def Transaction.inputsOf (params : ProtocolParameters) (data : Bytes) :
    Except WireError (List Input) := do
  let (discriminant, _) ← Varint.decode data
  let blank ← Transaction.blank discriminant
  let inputs := match blank with
    | .unsigned _ => UnsignedTransaction.inputsOf params data
    | .signed _ => SignedTransaction.inputsOf params data
  inputs.mapError (.inEntity blank.typeName)

section

variable {params : ProtocolParameters} {data : Bytes}

lemma UnsignedTransaction.decode_partOf_inputsReader :
    PartOf (do
      let (inputs, _) ← ObjectArray.decode Input.codec .validated (some params.inputRules) data
      return inputs) (inputsReader params .validated data) fun inputs => inputs := by
  have hread : inputsReader params .validated data
      = ObjectArray.decode Input.codec .validated (some params.inputRules) data :=
    readInputs_eq data
  rw [hread]
  exact .self _

lemma UnsignedTransaction.inputsOf_partOf :
    PartOf (inputsOf params data) (reader params .validated data) UnsignedTransaction.inputs := by
  rw [reader, Reader.discriminant_bind_apply]
  refine .bind fun p => .map (?_ : PartOf _ _ UnsignedTransaction.inputs) fun _ => rfl
  refine decode_partOf_inputsReader.followed fun inputs rest tx n htx => ?_
  simp only [Reader.bind_eq_ok, Reader.pure_apply, Except.ok.injEq, Prod.mk.injEq] at htx
  rcases htx with ⟨outputs, _, _, -, ⟨payload, _, _, -, ⟨rfl, -⟩, -⟩, -⟩
  rfl

lemma SignedTransaction.inputsOf_partOf :
    PartOf (inputsOf params data) (reader params .validated data) fun tx =>
      tx.transaction.inputs := by
  rw [reader, Reader.discriminant_bind_apply, transactionReader_eq]
  refine .bind fun p => .map (?_ : PartOf _ _ fun tx : SignedTransaction =>
    tx.transaction.inputs) fun _ => rfl
  refine (UnsignedTransaction.inputsOf_partOf.mapError _).followed
    fun transaction rest tx n htx => ?_
  simp only [Reader.bind_eq_ok, Reader.pure_apply, Except.ok.injEq, Prod.mk.injEq] at htx
  rcases htx with ⟨blocks, _, _, -, ⟨_, _, _, -, ⟨rfl, -⟩, -⟩, -⟩
  rfl

lemma Transaction.inputsOf_partOf :
    PartOf (inputsOf params data) ((codec params).decode .validated data) fun tx =>
      tx.unsignedPart.inputs := by
  refine .bind fun p => .bind fun blank => .mapError _ ?_
  have hbody : ((codec params).decodeInto .validated data).fill blank
      = (codec params).body .validated blank data := rfl
  rw [hbody]
  cases blank with
  | unsigned tx =>
      rw [body_unsigned]
      exact UnsignedTransaction.inputsOf_partOf.followed fun _ _ _ _ h => by cases h; rfl
  | signed tx =>
      rw [body_signed]
      exact SignedTransaction.inputsOf_partOf.followed fun _ _ _ _ h => by cases h; rfl

/-! ## Different outputs -/

variable {inputs : List Input}

lemma UnsignedTransaction.nodup_of_inputsOf (h : inputsOf params data = .ok inputs) :
    (inputs.map Input.outpoint).Nodup := by
  simp only [inputsOf, bind_eq_ok, Prod.exists, pure_eq_ok, Except.ok.injEq] at h
  rcases h with ⟨body, _, -, _, n, hread, rfl⟩
  exact Input.nodup_reference_iff.mp (nodup_reference_of_decode hread)

lemma SignedTransaction.nodup_of_inputsOf (h : inputsOf params data = .ok inputs) :
    (inputs.map Input.outpoint).Nodup := by
  simp only [inputsOf, bind_eq_ok, Prod.exists, mapError_eq_ok] at h
  rcases h with ⟨body, _, -, h⟩
  exact UnsignedTransaction.nodup_of_inputsOf h

lemma Transaction.nodup_of_inputsOf (h : inputsOf params data = .ok inputs) :
    (inputs.map Input.outpoint).Nodup := by
  simp only [inputsOf, bind_eq_ok, Prod.exists, mapError_eq_ok] at h
  rcases h with ⟨_, _, -, tx | tx, -, h⟩
  · exact UnsignedTransaction.nodup_of_inputsOf h
  · exact SignedTransaction.nodup_of_inputsOf h

end

/-- Inputs that reading comes by in its course spend different outputs, whatever becomes of the
rest, and the outcome is never that two of them spend the same. -/
structure SpendsOnce (inputs : Except WireError (List Input)) (outcome : Except WireError (α × Nat))
    (inputsIn : α → List Input) : Prop extends PartOf inputs outcome inputsIn where
  nodup : ∀ read, inputs = .ok read → (read.map Input.outpoint).Nodup
  ne_duplicateReference : ∀ e index first, outcome = .error e →
    e.rootCause ≠ .duplicateReference index first

/-- **No output is spent twice, and no check is needed to see that.**  Under validation the inputs
that the reading of a transaction comes by spend different outputs, in either kind of transaction,
read on its own or in its family.  No reading fails because two of them spend the same, also where
the transaction has to take all the bytes, and to read the inputs is to read an array. -/
theorem Transaction.decode_validated_spendsOnce (params : ProtocolParameters) (data : Bytes) :
    (∀ tx, SpendsOnce (UnsignedTransaction.inputsOf params data)
      ((UnsignedTransaction.decodeInto params .validated data).fill tx)
        UnsignedTransaction.inputs) ∧
    (∀ tx, SpendsOnce (SignedTransaction.inputsOf params data)
      ((SignedTransaction.decodeInto params .validated data).fill tx)
        fun tx => tx.transaction.inputs) ∧
    SpendsOnce (Transaction.inputsOf params data) ((codec params).decode .validated data)
      (fun tx => tx.unsignedPart.inputs) ∧
    (∀ e index first, (codec params).decodeExact .validated data = .error e →
      e.rootCause ≠ .duplicateReference index first) ∧
    UnsignedTransaction.readInputs params .validated data
      = ObjectArray.decode Input.codec .validated (some params.inputRules) data := by
  have hfails : ∀ e index first, (codec params).decode .validated data = .error e →
      e.rootCause ≠ .duplicateReference index first :=
    fun e index first he => (reader_failsWith data e he).ne_duplicateReference index first
  refine ⟨fun tx => ?_, fun tx => ?_, ?_, fun e index first he => ?_,
    UnsignedTransaction.readInputs_eq data⟩
  · rw [(UnsignedTransaction.decodeInto_follows data).fill_eq]
    exact ⟨UnsignedTransaction.inputsOf_partOf, fun _ => UnsignedTransaction.nodup_of_inputsOf,
      fun e index first he => (UnsignedTransaction.reader_failsWith data e he).ne_duplicateReference
        index first⟩
  · rw [(SignedTransaction.decodeInto_follows data).fill_eq]
    exact ⟨SignedTransaction.inputsOf_partOf, fun _ => SignedTransaction.nodup_of_inputsOf,
      fun e index first he => (SignedTransaction.reader_failsWith data e he).ne_duplicateReference
        index first⟩
  · exact ⟨inputsOf_partOf, fun _ => nodup_of_inputsOf, hfails⟩
  · rcases Codec.decodeExact_eq_error.mp he with hdecode | ⟨_, _, -, -, rfl⟩
    · exact hfails e index first hdecode
    · intro hroot
      cases hroot

/-- Two inputs that spend different outputs of one transaction, and nothing after them. -/
theorem Transaction.decode_validated_spendsOnce_cut_short :
    let data : Bytes := 0 :: 2 :: 0 :: List.replicate 34 0 ++ 0 :: List.replicate 32 0 ++ [1, 0]
    let second : Input := .utxo ⟨default, 1⟩
    inputsOf {} data = .ok [.utxo default, second] ∧
      ([Input.utxo default, second].map Input.outpoint).Nodup ∧
      ∃ e, (codec {}).decode .validated data = .error e ∧
        e.rootCause ≠ .duplicateReference 1 0 := by
  intro data second
  rcases decode_validated_spendsOnce {} data with ⟨-, -, h, -⟩
  have hinputs : inputsOf {} data = .ok [.utxo default, second] := by decide +kernel
  have hdecode : (codec {}).decode .validated data
      = .error (.inEntity "UnsignedTransaction" (.bufferTooShort 1 0)) := by decide +kernel
  exact ⟨hinputs, h.nodup _ hinputs, _, hdecode, h.ne_duplicateReference _ 1 0 hdecode⟩

end UtxoWire
