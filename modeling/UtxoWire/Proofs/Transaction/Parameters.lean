import UtxoWire.Proofs.Narrowing

/-!
# What the limits of a network have to do with reading

Of the limits only those on how many inputs and outputs there are have a bearing on reading, and
only under validation.  They decide whether a transaction is read, never which: to loosen them is to
read more, and what is read under two limits is the same.  That 0 stands for no bound turns the
order around at one place, and nowhere else.

* `ProtocolParameters.NoStricter` — bounds that ask for no more than others.
* `Transaction.Form.weaken` — bounds that ask for less have the forms of those that ask for more.
* **`Transaction.decode_bounds`** — how the outcomes of reading under different limits compare.
-/

namespace UtxoWire

/-! ## Bounds -/

/-- A lower bound asks for no more than another one: there is none, or the other is no lower. -/
def NoHigher (min' min : UInt64) : Prop :=
  min' = 0 ∨ min ≠ 0 ∧ min' ≤ min

/-- An upper bound asks for no more than another one: there is none, or the other is no higher. -/
def NoLower (max' max : UInt64) : Prop :=
  max' = 0 ∨ max ≠ 0 ∧ max ≤ max'

lemma WithinBounds.weaken {min min' max max' : UInt64} {count : Nat} (hmin : NoHigher min' min)
    (hmax : NoLower max' max) (h : WithinBounds min max count) : WithinBounds min' max' count := by
  rcases h with ⟨hlow, hhigh⟩
  constructor
  · rcases hmin with hnone | ⟨hsome, hle⟩
    · exact .inl hnone
    · rw [UInt64.le_iff_toNat_le] at hle
      exact .inr (Nat.le_trans hle (hlow.resolve_left hsome))
  · rcases hmax with hnone | ⟨hsome, hle⟩
    · exact .inl hnone
    · rw [UInt64.le_iff_toNat_le] at hle
      exact .inr (Nat.le_trans (hhigh.resolve_left hsome) hle)

/-- None of the four bounds on how many inputs and outputs there are asks for more than the same
bound of other parameters. -/
structure ProtocolParameters.NoStricter (params' params : ProtocolParameters) : Prop where
  minInputs : NoHigher params'.minInputs params.minInputs
  maxInputs : NoLower params'.maxInputs params.maxInputs
  minOutputs : NoHigher params'.minOutputs params.minOutputs
  maxOutputs : NoLower params'.maxOutputs params.maxOutputs

/-! ## Forms -/

section

variable {params params' : ProtocolParameters} {mode : Mode} {bytes : Bytes}

open UnsignedTransaction (rulesIn)

/-- An array under rules is one under rules with other bounds, if its elements are not too few or
too many for these. -/
lemma ObjectArray.Form.weaken {α : Type} {form : α → Bytes → Prop} {rules rules' : ArrayRules}
    {objects : List α} (h : Form form mode (rulesIn mode rules) objects bytes)
    (hbounds : WithinBounds rules.min rules.max objects.length →
      WithinBounds rules'.min rules'.max objects.length)
    (horder : rules'.lexicalOrder = rules.lexicalOrder) :
    Form form mode (rulesIn mode rules') objects bytes := by
  cases mode with
  | structural => exact h
  | validated =>
      rcases h with ⟨count, prefixed, elements, rfl, hcount, hlen, helements, hrules⟩
      rcases hrules rules rfl with ⟨hwithin, hascending⟩
      refine ⟨count, prefixed, elements, rfl, hcount, hlen, helements, ?_⟩
      rintro r ⟨⟩
      exact ⟨hbounds hwithin, fun h => hascending (horder ▸ h)⟩

lemma UnsignedTransaction.Content.weaken {tx : UnsignedTransaction}
    (h : tx.Content params mode bytes) (hparams : params'.NoStricter params) :
    tx.Content params' mode bytes := by
  rcases h with ⟨i, o, p, rfl, ⟨hi, hinputs⟩, ⟨ho, houtputs⟩, hp⟩
  have hi' : ObjectArray.Form (Input.Form mode) mode (rulesIn mode params'.inputRules)
      tx.inputs i :=
    hi.weaken (.weaken hparams.minInputs hparams.maxInputs) rfl
  have ho' : ObjectArray.Form (Output.Form mode) mode (rulesIn mode params'.outputRules)
      tx.outputs o :=
    ho.weaken (.weaken hparams.minOutputs hparams.maxOutputs) rfl
  exact ⟨i, o, p, rfl, ⟨hi', hinputs⟩, ⟨ho', houtputs⟩, hp⟩

/-- The bounds on unlock blocks are those on inputs. -/
lemma SignedTransaction.Content.weaken {tx : SignedTransaction}
    (h : tx.Content params mode bytes) (hparams : params'.NoStricter params) :
    tx.Content params' mode bytes := by
  rcases h with ⟨t, b, rfl, ⟨header, c, rfl, hheader, hc⟩, hb, hcheck⟩
  have hb' : ObjectArray.Form (UnlockBlock.Form mode) mode
      (rulesIn mode params'.unlockBlockRules) tx.unlockBlocks b :=
    hb.weaken (.weaken hparams.minInputs hparams.maxInputs) rfl
  exact ⟨_, b, rfl, ⟨header, c, rfl, hheader, hc.weaken hparams⟩, hb', hcheck⟩

/-- **Bounds that ask for less have the forms of those that ask for more.** -/
theorem Transaction.Form.weaken {tx : Transaction} (h : tx.Form params mode bytes)
    (hparams : params'.NoStricter params) : tx.Form params' mode bytes := by
  rcases h with ⟨header, c, rfl, hheader, hc⟩
  refine ⟨header, c, rfl, hheader, ?_⟩
  cases tx with
  | unsigned tx => exact UnsignedTransaction.Content.weaken hc hparams
  | signed tx => exact SignedTransaction.Content.weaken hc hparams

end

/-! ## Without validation

The rules on arrays are all that the readers take from the parameters, and without validation there
are none.
-/

section

variable (params params' : ProtocolParameters)

lemma UnsignedTransaction.reader_structural_eq :
    reader params .structural = reader params' .structural := by
  have hinputs : inputsReader params .structural = inputsReader params' .structural := rfl
  have houtputs : outputsReader params .structural = outputsReader params' .structural := rfl
  rw [reader, reader, hinputs, houtputs]

lemma SignedTransaction.reader_structural_eq :
    reader params .structural = reader params' .structural := by
  have htransaction : transactionReader params .structural
      = transactionReader params' .structural := by
    rw [transactionReader_eq, transactionReader_eq,
      UnsignedTransaction.reader_structural_eq params params']
  have hblocks : blocksReader params .structural = blocksReader params' .structural := rfl
  rw [reader, reader, htransaction, hblocks]

lemma Transaction.decode_structural_eq (data : Bytes) :
    (codec params).decode .structural data = (codec params').decode .structural data := by
  have hbody : ∀ blank, (codec params).body .structural blank
      = (codec params').body .structural blank := by
    intro blank
    cases blank with
    | unsigned tx =>
        rw [body_unsigned, body_unsigned, UnsignedTransaction.reader_structural_eq params params']
    | signed tx =>
        rw [body_signed, body_signed, SignedTransaction.reader_structural_eq params params']
  have hreader : (codec params).reader .structural = (codec params').reader .structural := by
    rw [Codec.reader_eq, Codec.reader_eq]
    simp only [hbody]
    rfl
  exact congrArg (fun reader => reader.run data) hreader

end

/-! ## Outcomes -/

namespace Transaction

variable {params params' : ProtocolParameters} {data : Bytes}

lemma decode_weaken (hparams : params'.NoStricter params) {tx : Transaction} {n : Nat}
    (h : (codec params).decode .validated data = .ok (tx, n)) :
    (codec params').decode .validated data = .ok (tx, n) := by
  rcases (reader_reads data tx n).mp h with ⟨hn, hform⟩
  exact (reader_reads data tx n).mpr ⟨hn, hform.weaken hparams⟩

/-- **How the outcomes of reading under different limits compare.**  Under bounds that ask for no
more, whatever is read under the others is read as well, to the same effect, and what fails fails
under the others.  What is read under any two limits is the same.  The supply and the highest output
index have no bearing on reading in either mode, and without validation no limit has. -/
theorem decode_bounds (params params' : ProtocolParameters) (data : Bytes) :
    (params'.NoStricter params →
      (∀ tx n, (codec params).decode .validated data = .ok (tx, n) →
        (codec params').decode .validated data = .ok (tx, n)) ∧
      ∀ e', (codec params').decode .validated data = .error e' →
        ∃ e, (codec params).decode .validated data = .error e) ∧
    (∀ read read', (codec params).decode .validated data = .ok read →
      (codec params').decode .validated data = .ok read' → read = read') ∧
    (∀ mode tokenSupply maxUtxoIndex,
      (codec { params with tokenSupply, maxUtxoIndex }).decode mode data
        = (codec params).decode mode data) ∧
    (codec params).decode .structural data = (codec params').decode .structural data := by
  refine ⟨fun hparams => ⟨fun tx n => decode_weaken hparams, fun e' he' => ?_⟩,
    fun read read' h h' => ?_, fun mode supply index => rfl,
    decode_structural_eq params params' data⟩
  · cases h : (codec params).decode .validated data with
    | error e => exact ⟨e, rfl⟩
    | ok read =>
        have hread := decode_weaken hparams h
        rw [he'] at hread
        cases hread
  · -- both are what is read without validation
    have hread : (codec params).decode .structural data = .ok read := reader_narrows.ok h
    have hread' : (codec params').decode .structural data = .ok read' := reader_narrows.ok h'
    rw [decode_structural_eq params params', hread'] at hread
    exact (Except.ok.inj hread).symm

/-- A transaction without inputs and with one output.  It is read where no inputs are asked for, the
more so without any bounds, and to the same effect under bounds that do not compare.  Where more
inputs are announced than allowed, nothing is read under narrower bounds either. -/
theorem decode_bounds_no_inputs :
    let data : Bytes :=
      0 :: 0 :: 1 :: 0 :: 1 :: List.replicate 32 0 ++ 5 :: List.replicate 7 0 ++ [0]
    let few : ProtocolParameters := { minInputs := 0, maxInputs := 3 }
    let fewer : ProtocolParameters := { maxInputs := 2 }
    let other : ProtocolParameters := { minInputs := 0, maxOutputs := 5 }
    let unbounded : ProtocolParameters :=
      { minInputs := 0, maxInputs := 0, minOutputs := 0, maxOutputs := 0 }
    let tx : Transaction := .unsigned { outputs := [.singleDeposit ⟨default, 5⟩] }
    (unbounded.NoStricter few ∧ (codec few).decode .validated data = .ok (tx, 46) ∧
      (codec unbounded).decode .validated data = .ok (tx, 46)) ∧
    (few.NoStricter fewer ∧ ∃ e e', (codec few).decode .validated [0, 9] = .error e' ∧
      (codec fewer).decode .validated [0, 9] = .error e) ∧
    ∃ read, (codec other).decode .validated data = .ok read ∧ read = (tx, 46) := by
  intro data few fewer other unbounded tx
  have hunbounded : unbounded.NoStricter few := ⟨.inl rfl, .inl rfl, .inl rfl, .inl rfl⟩
  have hfewer : few.NoStricter fewer :=
    ⟨.inl rfl, .inr ⟨by decide, by decide⟩, .inr ⟨by decide, by decide⟩,
      .inr ⟨by decide, by decide⟩⟩
  have hread : (codec few).decode .validated data = .ok (tx, 46) := by decide +kernel
  have hother : (codec other).decode .validated data = .ok (tx, 46) := by decide +kernel
  have hfail : (codec few).decode .validated [0, 9] = .error (.inEntity "UnsignedTransaction"
      (.countOutOfBounds "inputs" .max 3 9)) := by decide +kernel
  rcases decode_bounds few unbounded data with ⟨hloose, -⟩
  rcases decode_bounds fewer few [0, 9] with ⟨htight, -⟩
  rcases decode_bounds other few data with ⟨-, hsame, -⟩
  rcases (htight hfewer).2 _ hfail with ⟨e, he⟩
  exact ⟨⟨hunbounded, hread, (hloose hunbounded).1 _ _ hread⟩, ⟨hfewer, e, _, hfail, he⟩,
    _, hother, hsame _ _ hother hread⟩

end Transaction

end UtxoWire
