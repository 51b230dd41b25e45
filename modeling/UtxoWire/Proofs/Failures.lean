import UtxoWire.Proofs.Narrowing

/-!
# What reading fails for

Many things can be wrong with a transaction, but not all of them can be found out by reading it.  A
reader fails for bytes that are no object or, under validation, for a broken rule of the format;
never because it looked at bytes that are not there, and never for two inputs that spend the same
output, since such inputs are not in order.

* `WireError.isReading` — the failures of reading, without the names they are wrapped in;
  `WireError.isPlain` — those of them that are not over a discriminant.
* **`Reader.FailsWith`** — a reader fails for errors of one kind.  Like steadiness it is shown once
  for every way of putting readers together.
* `Codec.reader_failsWith`, `ObjectArray.reader_failsWith` — families and arrays, given their parts.
* `UnsignedTransaction.readInputs_eq` — that inputs spend different outputs is checked in vain:
  their order says so already.
* **`Family.reader_failsWith`** — whatever is read, it fails for errors of reading.
-/

namespace UtxoWire

variable {α β : Type} {kind kind' : WireError → Prop} {mode : Mode}

/-! ## Failures of reading -/

namespace WireError

/-- Bytes that are no object, or rules that are broken by bytes that are one.  To spend an output
twice is none of these rules: whoever does it has broken the rule of order before. -/
def isReading : WireError → Bool
  | .duplicateReference .. => false
  | e => e.isMalformed || e.isRule

/-- A failure of reading that no name is wrapped around. -/
def Bare (e : WireError) : Prop := e.isReading = true

/-- A failure of reading that is not over what a discriminant stands for.  It can happen wherever
something is read. -/
def isPlain : WireError → Bool
  | .unknownType .. | .typeMismatch .. | .unimplemented .. => false
  | e => e.isReading

def Plain (e : WireError) : Prop := e.isPlain = true

lemma Plain.bare {e : WireError} (h : e.Plain) : e.Bare := by
  cases e with
  | unknownType _ _ => cases h
  | typeMismatch _ _ _ => cases h
  | unimplemented _ _ => cases h
  | _ => exact h

/-- What went wrong, under the names it is wrapped in, is a failure of reading. -/
def OfReading (e : WireError) : Prop := e.rootCause.isReading = true

lemma Bare.ofReading {e : WireError} (h : e.Bare) : e.OfReading := by
  cases e with
  | inEntity entity cause => simp [Bare, isReading, isMalformed, isRule] at h
  | _ => exact h

lemma OfReading.inEntity {e : WireError} (h : e.OfReading) (entity : String) :
    (inEntity entity e).OfReading := h

lemma OfReading.ne_outOfRange {e : WireError} (h : e.OfReading) (position limit : Nat) :
    e.rootCause ≠ .outOfRange position limit := by
  intro he
  simp [OfReading, he, isReading, isMalformed, isRule] at h

lemma OfReading.ne_duplicateReference {e : WireError} (h : e.OfReading) (index duplicateOf : Nat) :
    e.rootCause ≠ .duplicateReference index duplicateOf := by
  intro he
  simp [OfReading, he, isReading] at h

lemma OfReading.ne_trailingBytes {e : WireError} (h : e.OfReading) (consumed trailing : Nat) :
    e.rootCause ≠ .trailingBytes consumed trailing := by
  intro he
  simp [OfReading, he, isReading, isMalformed, isRule] at h

end WireError

/-! ## Readers -/

namespace Reader

/-- **The reader fails for errors of this kind only**, whatever the bytes. -/
def FailsWith (kind : WireError → Prop) (reader : Reader α) : Prop :=
  ∀ data, FailsOnly kind (reader data)

namespace FailsWith

variable {reader : Reader α}

lemma mono (hr : FailsWith kind reader) (hkind : ∀ e, kind e → kind' e) : FailsWith kind' reader :=
  fun data => (hr data).mono hkind

lemma bare (hr : FailsWith WireError.Plain reader) : FailsWith WireError.Bare reader :=
  hr.mono fun _ => WireError.Plain.bare

lemma ofReading (hr : FailsWith WireError.Bare reader) : FailsWith WireError.OfReading reader :=
  hr.mono fun _ => WireError.Bare.ofReading

lemma pure (a : α) : FailsWith kind (pure a) := by
  intro data e h
  cases h

/-- What follows needs to fail so only after a value that the first reader can yield. -/
lemma bind_read {next : α → Reader β} (hr : FailsWith kind reader)
    (hnext : ∀ data a n, reader data = .ok (a, n) → FailsWith kind (next a)) :
    FailsWith kind (reader >>= next) := by
  intro data e h
  rcases bind_eq_error.mp h with h | ⟨a, n, hread, h⟩
  · exact hr data e h
  · exact hnext data a n hread _ e h

lemma bind {next : α → Reader β} (hr : FailsWith kind reader)
    (hnext : ∀ a, FailsWith kind (next a)) : FailsWith kind (reader >>= next) :=
  hr.bind_read fun _ a _ _ => hnext a

lemma lift {step : Except WireError α} (h : FailsOnly kind step) :
    FailsWith kind (liftM step : Reader α) := by
  intro data e he
  exact h e (map_eq_error.mp he)

lemma atLeast (n : Nat) : FailsWith WireError.Plain (atLeast n) := by
  intro data e h
  obtain ⟨-, rfl⟩ := require_eq_error.mp (map_eq_error.mp h)
  rfl

lemma fixed (n : Nat) : FailsWith WireError.Plain (fixed n) := by
  intro data e h
  rw [fixed_apply] at h
  split at h
  · cases h
  · cases h
    rfl

lemma peek (hr : FailsWith kind reader) : FailsWith kind (peek reader) := by
  intro data e h
  exact hr data e (map_eq_error.mp h)

lemma within {entity : String} (hr : FailsWith kind reader)
    (hkind : ∀ e, kind e → kind' (.inEntity entity e)) :
    FailsWith kind' (within entity reader) := by
  intro data e h
  obtain ⟨cause, hcause, rfl⟩ := mapError_eq_error.mp h
  exact hkind cause (hr data cause hcause)

lemma withBytes (hr : FailsWith kind reader) : FailsWith kind (withBytes reader) := by
  intro data e h
  exact hr data e (map_eq_error.mp h)

end FailsWith

lemma word16_failsWith : FailsWith WireError.Plain word16 :=
  (FailsWith.fixed 2).bind fun _ => .pure _

lemma word64_failsWith : FailsWith WireError.Plain word64 :=
  (FailsWith.fixed 8).bind fun _ => .pure _

end Reader

open Reader (FailsWith)

/-! ## Numbers -/

namespace Varint

/-- The place of a group is within the word as long as an eleventh group is not asked for. -/
lemma decodeGroups_failsOnly {available index : Nat} {value : UInt64} {bytes : Bytes}
    (hi : index ≤ maxSize) :
    FailsOnly WireError.Plain (decodeGroups available index value bytes) := by
  have hmax : maxSize = 10 := rfl
  induction bytes generalizing index value with
  | nil => exact .error rfl
  | cons byte rest ih =>
      rw [decodeGroups]
      by_cases hlast : index = maxSize
      · rw [if_pos hlast]
        exact .error rfl
      · have hshift : 7 * index < 64 := by omega
        rw [if_neg hlast]
        simp only [placeGroup, if_pos hshift, ok_bind]
        split
        · split
          · exact .error rfl
          · exact .ok _
        · exact ih (by omega)

lemma reader_failsWith : FailsWith WireError.Plain reader :=
  fun _ => decodeGroups_failsOnly (Nat.zero_le _)

lemma requireMinimal_failsOnly (context : String) (value : UInt64) (length : Nat) :
    FailsOnly WireError.Plain (requireMinimal context value length) :=
  .require rfl

end Varint

namespace Reader

lemma number_failsWith {rule : UInt64 → Nat → Except WireError Unit}
    (hplain : ∀ e, e.Plain → kind e) (hrule : ∀ value length, FailsOnly kind (rule value length)) :
    FailsWith kind (number rule) :=
  (Varint.reader_failsWith.mono hplain).withBytes.bind fun _ => (FailsWith.lift (hrule _ _)).bind
    fun _ => .pure _

/-- A number of which nothing is asked but its shortest form. -/
lemma minimal_failsWith (context : String) :
    FailsWith WireError.Plain (number fun value length =>
      mode.check (Varint.requireMinimal context value length)) :=
  number_failsWith (fun _ h => h) fun _ _ => .check (Varint.requireMinimal_failsOnly _ _ _)

/-- A discriminant is refused for what it is only under validation, and only if the bytes start with
another than the expected one. -/
lemma discriminant_failsOnly (hplain : ∀ e, e.Plain → kind e) {family : Family} {expected : UInt64}
    {data : Bytes} (hmismatch : ∀ actual length, Varint.decode data = .ok (actual, length) →
      mode = .validated → actual ≠ expected → kind (.typeMismatch family expected actual)) :
    FailsOnly kind (discriminant mode family expected data) := by
  intro e he
  simp only [discriminant, bind_eq_error, number_apply, UtxoWire.bind_eq_error, Prod.exists] at he
  rcases he with (hd | ⟨actual, length, hd, hrule | ⟨_, -, hdone⟩⟩) | ⟨_, _, -, hdone⟩
  · exact hplain e (Varint.reader_failsWith data e hd)
  · cases mode with
    | structural => cases hrule
    | validated =>
        rcases UtxoWire.bind_eq_error.mp hrule with htype | ⟨_, -, hminimal⟩
        · obtain ⟨hne, rfl⟩ := require_eq_error.mp htype
          exact hmismatch actual length hd rfl hne
        · exact hplain e (Varint.requireMinimal_failsOnly _ _ _ e hminimal)
  · cases hdone
  · cases hdone

lemma discriminant_failsWith (hplain : ∀ e, e.Plain → kind e) {family : Family} {expected : UInt64}
    (hmismatch : ∀ actual, mode = .validated → actual ≠ expected →
      kind (.typeMismatch family expected actual)) :
    FailsWith kind (discriminant mode family expected) :=
  fun _ => discriminant_failsOnly hplain fun actual _ _ => hmismatch actual

lemma discriminant_failsWith_bare {family : Family} {expected : UInt64} :
    FailsWith WireError.Bare (discriminant mode family expected) :=
  discriminant_failsWith (fun _ h => h.bare) fun _ _ _ => rfl

end Reader

/-! ## Families and arrays -/

/-- A family fails for what its variants fail for, unless there is no such variant. -/
theorem Codec.reader_failsWith {codec : Codec α}
    (hblank : ∀ number, FailsOnly WireError.Bare (codec.blank number))
    (hbody : ∀ blank, FailsWith WireError.OfReading (codec.body mode blank)) :
    FailsWith WireError.OfReading (codec.reader mode) := by
  rw [reader_eq]
  refine Varint.reader_failsWith.bare.ofReading.peek.bind fun number => ?_
  exact (FailsWith.lift (hblank number)).ofReading.bind fun blank =>
    (hbody blank).within fun _ h => h.inEntity _

/-- A variant fails for what the reader of its content fails for. -/
lemma Codec.body_failsWith {codec : Codec β} {wrap : α → β} {blank : β} {reader : Reader α}
    (hbody : codec.body mode blank = (do let new ← reader; return wrap new))
    (h : FailsWith kind reader) : FailsWith kind (codec.body mode blank) := by
  rw [hbody]
  exact h.bind fun _ => .pure _

namespace ObjectArray

variable {codec : Codec α}

lemma elements_failsWith (hplain : ∀ e, e.Plain → kind e)
    (hcodec : FailsWith kind (codec.reader mode)) (count index : Nat) (order : Option OrderCheck) :
    FailsWith kind (elements codec mode count index order) := by
  induction count generalizing index order with
  | zero => exact .pure []
  | succ count ih =>
      refine hcodec.withBytes.bind fun p => ?_
      have hadvance : FailsOnly WireError.Plain (advance order index p.2) :=
        advance_failsOnly (fun _ _ _ => rfl) _ _ _
      refine (FailsWith.lift (hadvance.mono hplain)).bind fun order => ?_
      exact (ih (index + 1) order).bind fun _ => .pure _

/-- An array fails for what its elements fail for, unless it fails for its number of elements or
their order. -/
theorem reader_failsWith (hplain : ∀ e, e.Plain → kind e)
    (hcodec : FailsWith kind (codec.reader mode)) (rules : Option ArrayRules) :
    FailsWith kind (reader codec mode rules) := by
  refine ((Reader.minimal_failsWith _).mono hplain).bind fun count => ?_
  refine (FailsWith.lift ?_).bind fun _ => elements_failsWith hplain hcodec _ _ _
  cases rules with
  | none => exact .ok ()
  | some rules => exact .bind (.require (hplain _ rfl)) fun _ => .require (hplain _ rfl)

end ObjectArray

/-! ## Objects other than transactions -/

lemma Ed25519Address.reader_failsWith : FailsWith WireError.Bare (reader mode) :=
  (FailsWith.atLeast _).bare.bind fun _ => Reader.discriminant_failsWith_bare.bind fun _ =>
    (FailsWith.fixed _).bare.bind fun _ => .pure _

lemma Address.reader_failsWith : FailsWith WireError.OfReading (codec.reader mode) := by
  refine Codec.reader_failsWith (fun number => ?_) fun blank => ?_
  · exact .ite (.error rfl) (.ite (.ok _) (.error rfl))
  · cases blank with
    | ed25519 address =>
        exact Codec.body_failsWith (body_eq address) Ed25519Address.reader_failsWith.ofReading

lemma UtxoInput.reader_failsWith : FailsWith WireError.Bare (reader mode) :=
  (FailsWith.atLeast _).bare.bind fun _ => Reader.discriminant_failsWith_bare.bind fun _ =>
    (FailsWith.atLeast _).bare.bind fun _ => (FailsWith.fixed _).bare.bind fun _ =>
      Reader.word16_failsWith.bare.bind fun _ => .pure _

lemma Input.reader_failsWith : FailsWith WireError.OfReading (codec.reader mode) := by
  refine Codec.reader_failsWith (fun number => ?_) fun blank => ?_
  · exact .ite (.ok _) (.error rfl)
  · cases blank with
    | utxo input => exact Codec.body_failsWith (body_eq input) UtxoInput.reader_failsWith.ofReading

lemma SingleDeposit.reader_failsWith : FailsWith WireError.OfReading (reader mode) :=
  Reader.discriminant_failsWith_bare.ofReading.bind fun _ => Address.reader_failsWith.bind fun _ =>
    Reader.word64_failsWith.bare.ofReading.bind fun _ => .pure _

lemma Output.reader_failsWith : FailsWith WireError.OfReading (codec.reader mode) := by
  refine Codec.reader_failsWith (fun number => ?_) fun blank => ?_
  · exact .ite (.ok _) (.error rfl)
  · cases blank with
    | singleDeposit deposit =>
        exact Codec.body_failsWith (body_eq deposit) SingleDeposit.reader_failsWith

lemma WotsSignature.reader_failsWith : FailsWith WireError.Bare reader :=
  .lift (.error rfl)

lemma Ed25519Signature.reader_failsWith : FailsWith WireError.Bare (reader mode) :=
  (FailsWith.atLeast _).bare.bind fun _ => Reader.discriminant_failsWith_bare.bind fun _ =>
    (FailsWith.atLeast _).bare.bind fun _ => (FailsWith.fixed _).bare.bind fun _ =>
      (FailsWith.fixed _).bare.bind fun _ => .pure _

lemma Signature.reader_failsWith : FailsWith WireError.OfReading (codec.reader mode) := by
  refine Codec.reader_failsWith (fun number => ?_) fun blank => ?_
  · exact .ite (.ok _) (.ite (.ok _) (.error rfl))
  · cases blank with
    | wots signature =>
        exact Codec.body_failsWith (body_wots signature) WotsSignature.reader_failsWith.ofReading
    | ed25519 signature =>
        exact Codec.body_failsWith (body_ed25519 signature)
          Ed25519Signature.reader_failsWith.ofReading

lemma SignatureUnlockBlock.reader_failsWith : FailsWith WireError.OfReading (reader mode) :=
  Reader.discriminant_failsWith_bare.ofReading.bind fun _ =>
    Signature.reader_failsWith.bind fun _ => .pure _

lemma ReferenceUnlockBlock.reader_failsWith : FailsWith WireError.Bare (reader mode) :=
  (FailsWith.atLeast _).bare.bind fun _ => Reader.discriminant_failsWith_bare.bind fun _ =>
    Reader.word16_failsWith.bare.bind fun _ => .pure _

lemma UnlockBlock.reader_failsWith : FailsWith WireError.OfReading (codec.reader mode) := by
  refine Codec.reader_failsWith (fun number => ?_) fun blank => ?_
  · exact .ite (.ok _) (.ite (.ok _) (.error rfl))
  · cases blank with
    | signature block =>
        exact Codec.body_failsWith (body_signature block) SignatureUnlockBlock.reader_failsWith
    | reference block =>
        exact Codec.body_failsWith (body_reference block)
          ReferenceUnlockBlock.reader_failsWith.ofReading

/-! ## Transactions -/

namespace UnsignedTransaction

variable {params : ProtocolParameters}

/-- **The inputs are checked for repetitions in vain.**  Once they have been read, their order has
shown that they spend different outputs. -/
theorem readInputs_eq (data : Bytes) : readInputs params mode data =
    ObjectArray.decode Input.codec mode (rulesIn mode params.inputRules) data := by
  rw [readInputs]
  cases hread : ObjectArray.decode Input.codec mode (rulesIn mode params.inputRules) data with
  | error e => rfl
  | ok p =>
      obtain ⟨inputs, n⟩ := p
      have hcheck : mode.check (validate inputs [Input.uniqueReferences]) = .ok () := by
        refine Mode.check_eq_ok.mpr ?_
        rintro rfl
        exact Input.validate_uniqueReferences.mpr (nodup_reference_of_decode hread)
      rw [ok_bind]
      dsimp only
      rw [hcheck]
      rfl

/-- An array under a check fails for what its elements or the check fail for. -/
lemma arrayReader_failsWith {codec : Codec α} {rules : ArrayRules}
    {check : List α → Except WireError Unit} (hplain : ∀ e, e.Plain → kind e)
    (hcodec : FailsWith kind (codec.reader mode))
    (hcheck : ∀ objects, FailsOnly kind (check objects)) :
    FailsWith kind (arrayReader codec mode rules check) :=
  (ObjectArray.reader_failsWith hplain hcodec _).bind fun objects =>
    (FailsWith.lift (.check (hcheck objects))).bind fun _ => .pure _

lemma inputsReader_failsWith : FailsWith WireError.OfReading (inputsReader params mode) := by
  have hreader : inputsReader params mode
      = ObjectArray.reader Input.codec mode (rulesIn mode params.inputRules) := by
    ext data
    exact (readInputs_eq data).trans (ObjectArray.decode_eq Input.reader_steady _ data)
  rw [hreader]
  exact ObjectArray.reader_failsWith (fun _ h => h.bare.ofReading) Input.reader_failsWith _

lemma outputsReader_failsWith : FailsWith WireError.OfReading (outputsReader params mode) := by
  rw [outputsReader_eq]
  refine arrayReader_failsWith (fun _ h => h.bare.ofReading) Output.reader_failsWith
    fun outputs => ?_
  exact Validator.validate_unique_failsOnly (fun _ _ => .ok _) fun _ _ => rfl

lemma payloadReader_failsWith : FailsWith WireError.Plain (payloadReader mode) := by
  rw [payloadReader_eq]
  refine (Reader.minimal_failsWith _).bind fun length => ?_
  unfold payloadBytes
  split
  · exact .pure none
  · exact (FailsWith.fixed _).bind fun _ => .pure _

lemma reader_failsWith : FailsWith WireError.OfReading (reader params mode) :=
  Reader.discriminant_failsWith_bare.ofReading.bind fun _ => inputsReader_failsWith.bind fun _ =>
    outputsReader_failsWith.bind fun _ => payloadReader_failsWith.bare.ofReading.bind fun _ =>
      .pure _

end UnsignedTransaction

namespace SignedTransaction

variable {params : ProtocolParameters}

lemma reader_failsWith : FailsWith WireError.OfReading (reader params mode) := by
  have htransaction : FailsWith WireError.OfReading (transactionReader params mode) := by
    rw [transactionReader_eq]
    exact UnsignedTransaction.reader_failsWith.within fun _ h => h.inEntity _
  have hblocks : FailsWith WireError.OfReading (blocksReader params mode) :=
    ObjectArray.reader_failsWith (fun _ h => h.bare.ofReading) UnlockBlock.reader_failsWith _
  refine Reader.discriminant_failsWith_bare.ofReading.bind fun _ =>
    htransaction.bind fun transaction => hblocks.bind fun blocks =>
      (FailsWith.lift (.check ?_)).bind fun _ => .pure _
  have hwots : WireError.OfReading WotsSignature.unimplemented := rfl
  exact checkUnlockBlocks_failsOnly (fun _ _ => rfl) (fun _ _ => rfl) (fun _ _ => rfl)
    fun block _ => UnlockBlock.signatureKey_failsOnly hwots block

end SignedTransaction

lemma Transaction.reader_failsWith {params : ProtocolParameters} :
    FailsWith WireError.OfReading ((codec params).reader mode) := by
  refine Codec.reader_failsWith (fun number => ?_) fun blank => ?_
  · exact .ite (.ok _) (.ite (.ok _) (.error rfl))
  · cases blank with
    | unsigned tx =>
        exact Codec.body_failsWith (body_unsigned tx) UnsignedTransaction.reader_failsWith
    | signed tx => exact Codec.body_failsWith (body_signed tx) SignedTransaction.reader_failsWith

/-- **Whatever is read, it fails for errors of reading.** -/
theorem Family.reader_failsWith (params : ProtocolParameters) (family : Family) :
    FailsWith WireError.OfReading ((family.codec params).reader mode) := by
  cases family with
  | address => exact Address.reader_failsWith
  | input => exact Input.reader_failsWith
  | output => exact Output.reader_failsWith
  | signature => exact Signature.reader_failsWith
  | unlockBlock => exact UnlockBlock.reader_failsWith
  | transaction => exact Transaction.reader_failsWith

end UtxoWire
