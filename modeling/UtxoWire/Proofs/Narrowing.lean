import UtxoWire.Proofs.Family

/-!
# What validation takes away

Objects are read with validation or without, and validation only ever takes objects away.  The two
readers of an object are walked through side by side: they stand at the same place with the same
parts read until a rule stops the validating one.  Bytes that are no object at all stop both.

* `WireError.BreaksRule` — the failures that validation adds.
* **`Reader.Narrows`** — one reader reads what the other does, less what breaks a rule.  Like
  steadiness it is shown once for every way of putting readers together.
* `Codec.reader_narrows`, `ObjectArray.reader_narrows` — families and arrays, given their parts.
* **`Family.decode_validated_narrows`** — validation only filters what is read without it.
-/

namespace UtxoWire

variable {α β γ δ : Type}

/-! ## Broken rules -/

namespace WireError

/-- Bytes that are an object, but one that breaks a rule. -/
def isRule : WireError → Bool
  | .typeMismatch .. | .nonCanonicalVarint .. | .countOutOfBounds .. | .lexicalOrderViolation ..
  | .duplicateReference .. | .duplicateDeposit .. | .unlockBlockCountMismatch ..
  | .invalidUnlockReference .. | .duplicateSignature .. => true
  | _ => false

/-- Bytes that are no object. -/
def isMalformed : WireError → Bool
  | .bufferTooShort .. | .invalidLength .. | .unknownType .. | .unimplemented ..
  | .integerOverflow .. => true
  | _ => false

lemma isMalformed_of_isRule {e : WireError} (h : e.isRule = true) : e.isMalformed = false := by
  cases e <;> simp_all [isRule, isMalformed]

/-- What went wrong, under the names it is wrapped in, is a broken rule. -/
def BreaksRule (e : WireError) : Prop := e.rootCause.isRule = true

end WireError

/-- The step fails for broken rules only. -/
def OnlyRules (step : Except WireError α) : Prop :=
  ∀ e, step = .error e → e.BreaksRule

namespace OnlyRules

lemma ok (a : α) : OnlyRules (Except.ok a) :=
  FailsOnly.ok a

lemma require {condition : Prop} [Decidable condition] {error : WireError}
    (herror : error.BreaksRule) : OnlyRules (require condition error) :=
  FailsOnly.require herror

lemma bind {x : Except WireError α} {f : α → Except WireError β} (hx : OnlyRules x)
    (hf : ∀ a, OnlyRules (f a)) : OnlyRules (x >>= f) :=
  FailsOnly.bind hx hf

end OnlyRules

/-! ## Readers -/

namespace Reader

/-- **The strict reader reads what the lax one does, less what breaks a rule.**  Where it succeeds
the lax one does, with the same outcome, and where it alone fails a rule is broken. -/
structure Narrows (strict lax : Reader α) : Prop where
  ok : ∀ {data a n}, strict data = .ok (a, n) → lax data = .ok (a, n)
  error : ∀ {data e p}, strict data = .error e → lax data = .ok p → e.BreaksRule

namespace Narrows

lemma refl (reader : Reader α) : Narrows reader reader where
  ok h := h
  error h h' := by
    rw [h] at h'
    cases h'

/-- The second readers need to agree only after a value that the first one can yield. -/
lemma bind {strict lax : Reader α} {next next' : α → Reader β} (hfirst : Narrows strict lax)
    (hnext : ∀ a, (∃ data n, strict data = .ok (a, n)) → Narrows (next a) (next' a)) :
    Narrows (strict >>= next) (lax >>= next') where
  ok {data _ _} h := by
    obtain ⟨a, n, m, h₁, h₂, rfl⟩ := bind_eq_ok.mp h
    exact bind_eq_ok.mpr ⟨a, n, m, hfirst.ok h₁, (hnext a ⟨data, n, h₁⟩).ok h₂, rfl⟩
  error {data _ p} h h' := by
    rcases p with ⟨b, k⟩
    obtain ⟨a, n, m, h₁', h₂', -⟩ := bind_eq_ok.mp h'
    rcases bind_eq_error.mp h with h₁ | ⟨b, k, h₁, h₂⟩
    · exact hfirst.error h₁ h₁'
    · -- both first readers have succeeded, so they have read the same
      have hsame := hfirst.ok h₁
      rw [h₁'] at hsame
      cases hsame
      exact (hnext _ ⟨data, _, h₁⟩).error h₂ h₂'

/-- A step that only the strict reader takes, or takes with more care. -/
lemma lift_bind {step : Except WireError α} {step' : Except WireError γ} {c : γ}
    {next : α → Reader β} {next' : γ → Reader β} (hlax : step' = .ok c) (hstrict : OnlyRules step)
    (hnext : ∀ a, step = .ok a → Narrows (next a) (next' c)) :
    Narrows (liftM step >>= next) (liftM step' >>= next') := by
  have hskip : ∀ data, (liftM step' >>= next') data = next' c data := by
    intro data
    rw [hlax]
    exact bind_of_ok_zero rfl
  constructor
  · intro data a n h
    rw [hskip]
    cases hs : step with
    | error e => simp [hs, bind_apply, lift_apply, Except.map] at h
    | ok b =>
        rw [hs, bind_of_ok_zero rfl] at h
        exact (hnext b hs).ok h
  · intro data e p h h'
    rw [hskip] at h'
    cases hs : step with
    | error e' =>
        simp only [hs, bind_apply, lift_apply, Except.map, error_bind, Except.error.injEq] at h
        subst h
        exact hstrict _ hs
    | ok b =>
        rw [hs, bind_of_ok_zero rfl] at h
        exact (hnext b hs).error h h'

lemma within {strict lax : Reader α} (entity : String) (h : Narrows strict lax) :
    Narrows (within entity strict) (within entity lax) where
  ok hread := mapError_eq_ok.mpr (h.ok (mapError_eq_ok.mp hread))
  error hread hread' := by
    rcases mapError_eq_error.mp hread with ⟨cause, hcause, rfl⟩
    exact h.error (e := cause) hcause (mapError_eq_ok.mp hread')

lemma withBytes {strict lax : Reader α} (h : Narrows strict lax) :
    Narrows (withBytes strict) (withBytes lax) where
  ok hread := by
    rcases map_eq_ok.mp hread with ⟨p, hp, hp'⟩
    exact map_eq_ok.mpr ⟨p, h.ok hp, hp'⟩
  error hread hread' := by
    rcases map_eq_ok.mp hread' with ⟨p, hp, -⟩
    exact h.error (map_eq_error.mp hread) hp

/-- The forms that the strict reader takes are forms for the lax one. -/
lemma form_mono {strict lax : Reader α} {form form' : α → Bytes → Prop} (h : Narrows strict lax)
    (hstrict : Reads strict form) (hlax : Reads lax form') {a : α} {bytes : Bytes}
    (ha : form a bytes) : form' a bytes := by
  have hread := h.ok (hstrict.apply_append ha [])
  have hform := ((hlax _ _ _).mp hread).2
  rwa [List.take_left] at hform

end Narrows

lemma number_narrows {rule : UInt64 → Nat → Except WireError Unit}
    (hrule : ∀ value length, OnlyRules (rule value length)) :
    Narrows (number fun value length => Mode.validated.check (rule value length))
      (number fun value length => Mode.structural.check (rule value length)) :=
  (Narrows.refl _).bind fun _ _ => .lift_bind rfl (hrule _ _) fun _ _ => .refl _

end Reader

open Reader (Narrows)

lemma Varint.requireMinimal_onlyRules (context : String) (value : UInt64) (length : Nat) :
    OnlyRules (requireMinimal context value length) :=
  .require rfl

lemma Reader.discriminant_narrows {family : Family} {expected : UInt64} :
    Narrows (discriminant .validated family expected)
      (discriminant .structural family expected) := by
  refine (number_narrows fun value length => ?_).bind fun _ _ => .refl _
  exact .bind (.require rfl) fun _ => Varint.requireMinimal_onlyRules _ _ _

/-! ## Families and arrays -/

/-- Validation narrows a family if it narrows each variant. -/
theorem Codec.reader_narrows {codec : Codec α}
    (hbody : ∀ blank, Narrows (codec.body .validated blank) (codec.body .structural blank)) :
    Narrows (codec.reader .validated) (codec.reader .structural) := by
  rw [reader_eq, reader_eq]
  exact (Narrows.refl _).bind fun _ _ => (Narrows.refl _).bind fun blank _ =>
    (hbody blank).within _

/-- A variant is narrowed as what it holds is. -/
lemma Codec.body_narrows {codec : Codec β} {wrap : α → β} {blank : β} {reader : Mode → Reader α}
    (hbody : ∀ mode, codec.body mode blank = (do let new ← reader mode; return wrap new))
    (h : Narrows (reader .validated) (reader .structural)) :
    Narrows (codec.body .validated blank) (codec.body .structural blank) := by
  rw [hbody, hbody]
  exact h.bind fun _ _ => .refl _

namespace ObjectArray

variable {codec : Codec α}

/-- The elements are the same, whether an order check looks at them or not. -/
lemma elements_narrows (hcodec : Narrows (codec.reader .validated) (codec.reader .structural))
    (count index : Nat) (order : Option OrderCheck) :
    Narrows (elements codec .validated count index order)
      (elements codec .structural count index none) := by
  induction count generalizing index order with
  | zero => exact .refl _
  | succ count ih =>
      refine hcodec.withBytes.bind fun p _ => ?_
      refine .lift_bind rfl (advance_failsOnly (fun _ _ _ => rfl) _ _ _) fun order _ => ?_
      exact (ih (index + 1) order).bind fun _ _ => .refl _

theorem reader_narrows (hcodec : Narrows (codec.reader .validated) (codec.reader .structural))
    (rules : Option ArrayRules) :
    Narrows (reader codec .validated rules) (reader codec .structural none) := by
  refine (Reader.number_narrows fun _ _ => Varint.requireMinimal_onlyRules _ _ _).bind
    fun count _ => ?_
  refine .lift_bind rfl ?_ fun _ _ => elements_narrows hcodec _ _ _
  cases rules with
  | none => exact .ok ()
  | some rules => exact .bind (.require rfl) fun _ => .require rfl

end ObjectArray

/-! ## Objects other than transactions -/

lemma Address.reader_narrows :
    Narrows (Address.codec.reader .validated) (Address.codec.reader .structural) := by
  refine Codec.reader_narrows fun blank => ?_
  cases blank with
  | ed25519 address =>
      refine Codec.body_narrows (fun _ => body_eq address) ?_
      exact (Narrows.refl _).bind fun _ _ => Reader.discriminant_narrows.bind fun _ _ => .refl _

lemma Input.reader_narrows :
    Narrows (Input.codec.reader .validated) (Input.codec.reader .structural) := by
  refine Codec.reader_narrows fun blank => ?_
  cases blank with
  | utxo input =>
      refine Codec.body_narrows (fun _ => body_eq input) ?_
      exact (Narrows.refl _).bind fun _ _ => Reader.discriminant_narrows.bind fun _ _ => .refl _

lemma Output.reader_narrows :
    Narrows (Output.codec.reader .validated) (Output.codec.reader .structural) := by
  refine Codec.reader_narrows fun blank => ?_
  cases blank with
  | singleDeposit deposit =>
      refine Codec.body_narrows (fun _ => body_eq deposit) ?_
      exact Reader.discriminant_narrows.bind fun _ _ =>
        Address.reader_narrows.bind fun _ _ => .refl _

lemma Signature.reader_narrows :
    Narrows (Signature.codec.reader .validated) (Signature.codec.reader .structural) := by
  refine Codec.reader_narrows fun blank => ?_
  cases blank with
  | wots signature => exact Codec.body_narrows (fun _ => body_wots signature) (.refl _)
  | ed25519 signature =>
      refine Codec.body_narrows (fun _ => body_ed25519 signature) ?_
      exact (Narrows.refl _).bind fun _ _ => Reader.discriminant_narrows.bind fun _ _ => .refl _

lemma UnlockBlock.reader_narrows :
    Narrows (UnlockBlock.codec.reader .validated) (UnlockBlock.codec.reader .structural) := by
  refine Codec.reader_narrows fun blank => ?_
  cases blank with
  | signature block =>
      refine Codec.body_narrows (fun _ => body_signature block) ?_
      exact Reader.discriminant_narrows.bind fun _ _ =>
        Signature.reader_narrows.bind fun _ _ => .refl _
  | reference block =>
      refine Codec.body_narrows (fun _ => body_reference block) ?_
      exact (Narrows.refl _).bind fun _ _ => Reader.discriminant_narrows.bind fun _ _ => .refl _

/-! ## Transactions -/

lemma Input.uniqueReferences_onlyRules {inputs : List Input} :
    OnlyRules (validate inputs [uniqueReferences]) :=
  Validator.validate_unique_failsOnly (fun _ _ => .ok _) fun _ _ => rfl

lemma Output.uniqueAddresses_onlyRules {outputs : List Output} :
    OnlyRules (validate outputs [uniqueAddresses]) :=
  Validator.validate_unique_failsOnly (fun _ _ => .ok _) fun _ _ => rfl

/-- The check of unlock blocks breaks down over a signature without a wire form, but over nothing
else. -/
lemma checkUnlockBlocks_onlyRules {inputs : List Input} {blocks : List UnlockBlock}
    (hencode : ∀ block ∈ blocks, ∀ s, block.signature? = some s → ∃ bytes, s.encode = .ok bytes) :
    OnlyRules (checkUnlockBlocks inputs blocks) := by
  refine checkUnlockBlocks_failsOnly (fun _ _ => rfl) (fun _ _ => rfl) (fun _ _ => rfl) ?_
  intro block hblock e he
  rcases UnlockBlock.exists_signatureKey.mpr (hencode block hblock) with ⟨k, hk⟩
  exact absurd (hk.symm.trans he) nofun

namespace UnsignedTransaction

variable {params : ProtocolParameters}

lemma arrayReader_narrows {codec : Codec α} {rules : ArrayRules}
    {check : List α → Except WireError Unit}
    (hcodec : Narrows (codec.reader .validated) (codec.reader .structural))
    (hcheck : ∀ objects, OnlyRules (check objects)) :
    Narrows (arrayReader codec .validated rules check)
      (arrayReader codec .structural rules check) :=
  (ObjectArray.reader_narrows hcodec _).bind fun objects _ =>
    .lift_bind rfl (hcheck objects) fun _ _ => .refl _

lemma payloadReader_narrows : Narrows (payloadReader .validated) (payloadReader .structural) := by
  rw [payloadReader_eq, payloadReader_eq]
  exact (Reader.number_narrows fun _ _ => Varint.requireMinimal_onlyRules _ _ _).bind
    fun _ _ => .refl _

lemma reader_narrows : Narrows (reader params .validated) (reader params .structural) := by
  have hinputs : Narrows (inputsReader params .validated) (inputsReader params .structural) := by
    rw [inputsReader_eq, inputsReader_eq]
    exact arrayReader_narrows Input.reader_narrows fun _ => Input.uniqueReferences_onlyRules
  have houtputs : Narrows (outputsReader params .validated) (outputsReader params .structural) := by
    rw [outputsReader_eq, outputsReader_eq]
    exact arrayReader_narrows Output.reader_narrows fun _ => Output.uniqueAddresses_onlyRules
  exact Reader.discriminant_narrows.bind fun _ _ => hinputs.bind fun _ _ =>
    houtputs.bind fun _ _ => payloadReader_narrows.bind fun _ _ => .refl _

end UnsignedTransaction

namespace SignedTransaction

variable {params : ProtocolParameters}

/-- Unlock blocks that are read hold no signature without a wire form. -/
lemma encode_signature_of_blocksReader {data : Bytes} {blocks : List UnlockBlock} {n : Nat}
    (h : blocksReader params .validated data = .ok (blocks, n)) :
    ∀ block ∈ blocks, ∀ s, block.signature? = some s → ∃ bytes, s.encode = .ok bytes := by
  have hform := ((ObjectArray.reader_reads UnlockBlock.reader_reads _ _ _ _).mp h).2
  exact (blocksForm_validated_iff.mp hform).1.encode_signature

lemma reader_narrows : Narrows (reader params .validated) (reader params .structural) := by
  have htransaction : Narrows (transactionReader params .validated)
      (transactionReader params .structural) := by
    rw [transactionReader_eq, transactionReader_eq]
    exact UnsignedTransaction.reader_narrows.within _
  have hblocks : Narrows (blocksReader params .validated) (blocksReader params .structural) :=
    ObjectArray.reader_narrows UnlockBlock.reader_narrows _
  refine Reader.discriminant_narrows.bind fun _ _ => htransaction.bind fun transaction _ =>
    hblocks.bind fun blocks hread => ?_
  rcases hread with ⟨data, n, hread⟩
  exact .lift_bind rfl (checkUnlockBlocks_onlyRules (encode_signature_of_blocksReader hread))
    fun _ _ => .refl _

end SignedTransaction

lemma Transaction.reader_narrows {params : ProtocolParameters} :
    Narrows ((Transaction.codec params).reader .validated)
      ((Transaction.codec params).reader .structural) := by
  refine Codec.reader_narrows fun blank => ?_
  cases blank with
  | unsigned tx =>
      exact Codec.body_narrows (fun _ => body_unsigned tx) UnsignedTransaction.reader_narrows
  | signed tx => exact Codec.body_narrows (fun _ => body_signed tx) SignedTransaction.reader_narrows

/-! ## All families -/

namespace Family

theorem reader_narrows (params : ProtocolParameters) (family : Family) :
    Narrows ((family.codec params).reader .validated)
      ((family.codec params).reader .structural) := by
  cases family with
  | address => exact Address.reader_narrows
  | input => exact Input.reader_narrows
  | output => exact Output.reader_narrows
  | signature => exact Signature.reader_narrows
  | unlockBlock => exact UnlockBlock.reader_narrows
  | transaction => exact Transaction.reader_narrows

/-- **Validation only filters.**  What is read under validation is read without it, as the same
object from as many bytes.  What is read only without it breaks a rule, and that is what the failure
says: it never says that the bytes are malformed. -/
theorem decode_validated_narrows (params : ProtocolParameters) (family : Family)
    (data : Bytes) :
    (∀ x n, (family.codec params).decode .validated data = .ok (x, n) →
      (family.codec params).decode .structural data = .ok (x, n)) ∧
    (∀ x n e, (family.codec params).decode .structural data = .ok (x, n) →
      (family.codec params).decode .validated data = .error e →
        e.rootCause.isRule = true ∧ e.rootCause.isMalformed = false) := by
  have hnarrows := reader_narrows params family
  constructor
  · intro x n h
    exact hnarrows.ok h
  · intro x n e h h'
    have hrule : e.BreaksRule := hnarrows.error h' h
    exact ⟨hrule, WireError.isMalformed_of_isRule hrule⟩

/-- A reference unlock block, and a signed transaction with nothing in it but the wrong discriminant
of the transaction inside. -/
theorem decode_validated_narrows_discriminant :
    ((codec {} .unlockBlock).decode .validated [1, 5, 0, 9] = .ok (.reference ⟨5⟩, 3) ∧
      (codec {} .unlockBlock).decode .structural [1, 5, 0, 9] = .ok (.reference ⟨5⟩, 3)) ∧
    ∃ e, (codec {} .transaction).decode .structural [1, 7, 0, 0, 0, 0] = .ok (.signed {}, 6) ∧
      (codec {} .transaction).decode .validated [1, 7, 0, 0, 0, 0] = .error e ∧
        e.rootCause = .typeMismatch .transaction 0 7 ∧ e.rootCause.isRule = true ∧
          e.rootCause.isMalformed = false := by
  have hblock : (codec {} .unlockBlock).decode .validated [1, 5, 0, 9]
      = .ok (.reference ⟨5⟩, 3) := rfl
  have hlax : (codec {} .transaction).decode .structural [1, 7, 0, 0, 0, 0]
      = .ok (.signed {}, 6) := rfl
  have hstrict : (codec {} .transaction).decode .validated [1, 7, 0, 0, 0, 0]
      = .error (.inEntity "SignedTransaction" (.inEntity "UnsignedTransaction"
        (.typeMismatch .transaction 0 7))) := rfl
  have hfilter := (decode_validated_narrows {} .unlockBlock [1, 5, 0, 9]).1 _ _ hblock
  have hrule := (decode_validated_narrows {} .transaction _).2 _ _ _ hlax hstrict
  exact ⟨⟨hblock, hfilter⟩, _, hlax, hstrict, rfl, hrule⟩

end Family

end UtxoWire
