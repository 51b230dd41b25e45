import UtxoWire.Proofs.RoundTrip

/-!
# Writing again what was read

Without validation an object is read from many byte strings: numbers may be padded, and before the
transaction inside a signed one any number may stand for its discriminant.  Whatever it was read
from, an object can be written, and what is written is again read as that object and is never
longer.

* **`Normalises`** — all forms of a value give way to one that is written, a form itself and none
  that is longer.  It is shown once for every way of putting forms together.
* `ObjectArray.normalises`, `Transaction.form_normalises` — arrays of any length, and transactions.
* **`Family.encode_of_decode_structural`** — what follows for reading and writing in turn.
-/

namespace UtxoWire

variable {α : Type}

/-! ## Forms that give way to another -/

/-- **For every form there is a written one that is no longer**, and which is a form itself. -/
def Normalises (forms written : Bytes → Prop) : Prop :=
  ∀ bytes, forms bytes → ∃ c, written c ∧ forms c ∧ c.length ≤ bytes.length

namespace Normalises

variable {forms written forms' written' : Bytes → Prop}

lemma mono (h : Normalises forms written) (hwritten : ∀ c, written c → written' c) :
    Normalises forms written' := by
  intro bytes hbytes
  obtain ⟨c, hc, hform, hlen⟩ := h bytes hbytes
  exact ⟨c, hwritten c hc, hform, hlen⟩

lemma congr (h : Normalises forms written) (hforms : ∀ bytes, forms bytes ↔ forms' bytes) :
    Normalises forms' written := by
  intro bytes hbytes
  obtain ⟨c, hc, hform, hlen⟩ := h bytes ((hforms bytes).mpr hbytes)
  exact ⟨c, hc, (hforms c).mp hform, hlen⟩

/-- What is asked besides, and not of the bytes, changes nothing. -/
lemma and {p : Prop} (h : Normalises forms written) (hp : p) :
    Normalises (fun bytes => forms bytes ∧ p) written :=
  h.congr fun _ => (and_iff_left hp).symm

/-- What has one form only is written so. -/
lemma single (bytes : Bytes) : Normalises (· = bytes) (· = bytes) := by
  intro c hc
  exact ⟨c, hc, hc, Nat.le_refl _⟩

/-- One part after the other. -/
lemma append (h : Normalises forms written) (h' : Normalises forms' written') :
    Normalises (fun bytes => ∃ s t, bytes = s ++ t ∧ forms s ∧ forms' t)
      (fun bytes => ∃ s t, bytes = s ++ t ∧ written s ∧ written' t) := by
  rintro _ ⟨s, t, rfl, hs, ht⟩
  obtain ⟨c, hc, hcform, hclen⟩ := h s hs
  obtain ⟨d, hd, hdform, hdlen⟩ := h' t ht
  refine ⟨c ++ d, ⟨c, d, rfl, hc, hd⟩, ⟨c, d, rfl, hcform, hdform⟩, ?_⟩
  rw [List.length_append, List.length_append]
  exact Nat.add_le_add hclen hdlen

end Normalises

lemma Varint.form_normalises (value : UInt64) :
    Normalises (Form .structural value) (Form .validated value) :=
  fun _ h => ⟨encode value, Form.encode .validated value, Form.encode .structural value,
    h.2.1.length_encodeNat_le⟩

lemma Tagged.normalises {tag : UInt64} {content written : Bytes → Prop}
    (h : Normalises content written) :
    Normalises (Tagged .structural tag content) (Tagged .validated tag written) :=
  (Varint.form_normalises tag).append h

/-- A number that stands for a discriminant of one byte has no fewer bytes. -/
lemma Headed.normalises {expected : UInt64} (hexpected : expected.toNat < 128)
    {content written : Bytes → Prop} (h : Normalises content written) :
    Normalises (Headed .structural expected content) (Headed .validated expected written) := by
  have hdiscriminant : Normalises (DiscriminantForm .structural expected)
      (DiscriminantForm .validated expected) := by
    rintro bytes ⟨actual, hactual, -⟩
    -- nothing is known of the number that was read, but that it has a byte
    refine ⟨Varint.encode expected, ⟨expected, Varint.Form.encode _ _, fun _ => rfl⟩,
      ⟨expected, Varint.Form.encode _ _, nofun⟩, ?_⟩
    rw [Varint.encode_of_lt hexpected]
    exact hactual.length_pos
  exact hdiscriminant.append h

/-! ## Arrays -/

namespace ObjectArray

variable {codec : Codec α} {form : α → Bytes → Prop}

/-- Elements of which each gives way to a written form do so in turn. -/
lemma elements_normalise (h : ∀ a, Normalises (form a) fun e => codec.encode .structural a = .ok e)
    {objects : List α} {es : List Bytes} (hes : List.Forall₂ form objects es) :
    ∃ cs, List.Forall₂ (fun a c => codec.encode .structural a = .ok c) objects cs ∧
      List.Forall₂ form objects cs ∧ cs.flatten.length ≤ es.flatten.length := by
  induction hes with
  | nil => exact ⟨[], .nil, .nil, Nat.le_refl 0⟩
  | @cons a e objects es he _ ih =>
      obtain ⟨c, hc, hform, hlen⟩ := h a e he
      obtain ⟨cs, hcs, hforms, hlens⟩ := ih
      refine ⟨c :: cs, .cons hc hcs, .cons hform hforms, ?_⟩
      simp only [List.flatten_cons, List.length_append]
      exact Nat.add_le_add hlen hlens

theorem normalises (h : ∀ a, Normalises (form a) fun e => codec.encode .structural a = .ok e)
    (objects : List α) : Normalises (Form form .structural none objects) fun bytes =>
      encode codec .structural objects = .ok bytes := by
  rintro _ ⟨count, p, es, rfl, hp, hcount, hes, -⟩
  obtain ⟨cs, hcs, hforms, hlens⟩ := elements_normalise h hes
  refine ⟨Varint.encode count ++ cs.flatten, encode_eq_ok.mpr ⟨cs, hcs, ?_⟩,
    ⟨count, _, cs, rfl, Varint.Form.encode _ _, hcount, hforms, nofun⟩, ?_⟩
  · rw [hcount, Varint.encode]
  · rw [List.length_append, List.length_append]
    exact Nat.add_le_add hp.2.1.length_encodeNat_le hlens

/-- Arrays of elements that always have a wire form. -/
lemma written_normalises {f : α → Bytes} (hf : ∀ a, codec.encode .structural a = .ok (f a))
    (h : ∀ a, Normalises (form a) (· = f a)) (objects : List α) :
    Normalises (Form form .structural none objects) (· = written f objects) := by
  have hencode : ∀ a, Normalises (form a) fun e => codec.encode .structural a = .ok e :=
    fun a => (h a).mono fun e he => by rw [hf, he]
  refine (normalises hencode objects).mono fun bytes hbytes => ?_
  rw [encode_written hf] at hbytes
  exact (Except.ok.inj hbytes).symm

end ObjectArray

/-! ## Objects other than transactions -/

lemma Address.form_normalises (a : Address) :
    Normalises (a.Form .structural) (a.Form .validated) := by
  cases a with
  | ed25519 a => exact Tagged.normalises (.single _)

lemma Input.form_normalises (input : Input) :
    Normalises (input.Form .structural) (input.Form .validated) := by
  cases input with
  | utxo input => exact Tagged.normalises (.single _)

lemma Output.form_normalises (output : Output) :
    Normalises (output.Form .structural) (output.Form .validated) := by
  cases output with
  | singleDeposit deposit =>
      refine Tagged.normalises ?_
      rintro _ ⟨s, rfl, hs⟩
      obtain ⟨c, hc, hform, hlen⟩ := deposit.address.form_normalises s hs
      refine ⟨_, ⟨c, rfl, hc⟩, ⟨c, rfl, hform⟩, ?_⟩
      rw [List.length_append, List.length_append]
      exact Nat.add_le_add_right hlen _

lemma Signature.form_normalises (signature : Signature) :
    Normalises (signature.Form .structural) (signature.Form .validated) := by
  cases signature with
  | wots signature => exact Tagged.normalises fun _ h => h.elim
  | ed25519 signature => exact Tagged.normalises (.single _)

lemma UnlockBlock.form_normalises (block : UnlockBlock) :
    Normalises (block.Form .structural) (block.Form .validated) := by
  cases block with
  | signature block => exact Tagged.normalises block.signature.form_normalises
  | reference block => exact Tagged.normalises (.single _)

/-! ## Transactions -/

namespace UnsignedTransaction

variable (params : ProtocolParameters)

lemma inputsForm_normalises (inputs : List Input) :
    Normalises (InputsForm params .structural inputs)
      (· = ObjectArray.written Input.encode inputs) := by
  have hencode : ∀ input, Input.codec.encode .structural input = .ok input.encode := fun _ => rfl
  have hinput : ∀ input : Input, Normalises (input.Form .structural) (· = input.encode) :=
    fun input => input.form_normalises.mono fun _ => Input.form_validated_iff.mp
  exact (ObjectArray.written_normalises hencode hinput inputs).and nofun

lemma outputsForm_normalises (outputs : List Output) :
    Normalises (OutputsForm params .structural outputs)
      (· = ObjectArray.written Output.encode outputs) := by
  have hencode : ∀ output, Output.codec.encode .structural output = .ok output.encode :=
    fun _ => rfl
  have houtput : ∀ output : Output, Normalises (output.Form .structural) (· = output.encode) :=
    fun output => output.form_normalises.mono fun _ => Output.form_validated_iff.mp
  exact (ObjectArray.written_normalises hencode houtput outputs).and nofun

lemma payloadForm_normalises (payload : Option Bytes) :
    Normalises (PayloadForm .structural payload) (· = encodePayload payload) := by
  cases payload with
  | none =>
      refine (Varint.form_normalises 0).mono fun c hc => ?_
      rw [Varint.form_validated_iff.mp hc, encodePayload, Option.getD_none, List.append_nil]
      rfl
  | some payload =>
      rintro _ ⟨length, p, rfl, hp, hlength, hne⟩
      refine ⟨Varint.encode length ++ payload, ?_,
        ⟨length, _, rfl, Varint.Form.encode _ _, hlength, hne⟩, ?_⟩
      · rw [Varint.encode, ← hlength]
        rfl
      · rw [List.length_append, List.length_append]
        exact Nat.add_le_add_right hp.2.1.length_encodeNat_le _

/-- The parts give way to what is written one by one. -/
lemma content_normalises (tx : UnsignedTransaction) :
    Normalises (tx.Content params .structural) (· = tx.content) := by
  have hparts := (inputsForm_normalises params tx.inputs).append
    ((outputsForm_normalises params tx.outputs).append (payloadForm_normalises tx.payload))
  refine (hparts.congr fun bytes => ?forms).mono ?written
  case forms =>
    constructor
    · rintro ⟨i, _, rfl, hi, o, p, rfl, ho, hp⟩
      exact ⟨i, o, p, rfl, hi, ho, hp⟩
    · rintro ⟨i, o, p, rfl, hi, ho, hp⟩
      exact ⟨i, _, rfl, hi, o, p, rfl, ho, hp⟩
  case written =>
    rintro _ ⟨_, _, rfl, rfl, _, _, rfl, rfl, rfl⟩
    rfl

end UnsignedTransaction

lemma SignedTransaction.content_normalises (params : ProtocolParameters) (tx : SignedTransaction) :
    Normalises (tx.Content params .structural) fun bytes => ∃ b, WritesBlocks tx.unlockBlocks b ∧
      bytes = Varint.encode UnsignedTransaction.discriminant ++ tx.transaction.content ++ b := by
  have hone : UnsignedTransaction.discriminant.toNat < 128 := by decide
  have htransaction := Headed.normalises hone (tx.transaction.content_normalises params)
  have hblock : ∀ block : UnlockBlock, Normalises (block.Form .structural) fun e =>
      UnlockBlock.codec.encode .structural block = .ok e :=
    fun block => block.form_normalises.mono fun _ => UnlockBlock.form_validated_iff.mp
  have hparts := htransaction.append (ObjectArray.normalises hblock tx.unlockBlocks)
  refine (hparts.congr fun bytes => ?forms).mono ?written
  case forms =>
    constructor
    · rintro ⟨t, b, rfl, ht, hb⟩
      exact ⟨t, b, rfl, ht, hb, nofun⟩
    · rintro ⟨t, b, rfl, ht, hb, -⟩
      exact ⟨t, b, rfl, ht, hb⟩
  case written =>
    rintro _ ⟨t, b, rfl, ht, hb⟩
    obtain ⟨_, rfl, rfl⟩ := headed_validated_iff.mp ht
    exact ⟨b, encode_blocks_eq_ok.mp hb, rfl⟩

lemma Transaction.form_normalises (params : ProtocolParameters) (tx : Transaction) :
    Normalises (tx.Form params .structural) fun bytes => tx.encode .structural = .ok bytes := by
  cases tx with
  | unsigned tx =>
      refine (Tagged.normalises (tx.content_normalises params)).mono fun bytes h => ?_
      obtain ⟨_, rfl, rfl⟩ := tagged_validated_iff.mp h
      exact UnsignedTransaction.encode_eq_ok.mpr ⟨nofun, rfl⟩
  | signed tx =>
      refine (Tagged.normalises (tx.content_normalises params)).mono fun bytes h => ?_
      obtain ⟨_, rfl, b, hb, rfl⟩ := tagged_validated_iff.mp h
      exact SignedTransaction.encode_eq_ok.mpr ⟨nofun, b, hb, rfl⟩

/-! ## All families -/

namespace Family

lemma form_normalises (params : ProtocolParameters) (family : Family) (x : family.Object) :
    Normalises (Form params .structural family x) fun bytes =>
      (family.codec params).encode .structural x = .ok bytes := by
  cases family with
  | address =>
      exact (Address.form_normalises x).mono fun _ h =>
        congrArg _ (Address.form_validated_iff.mp h).symm
  | input =>
      exact (Input.form_normalises x).mono fun _ h =>
        congrArg _ (Input.form_validated_iff.mp h).symm
  | output =>
      exact (Output.form_normalises x).mono fun _ h =>
        congrArg _ (Output.form_validated_iff.mp h).symm
  | signature => exact (Signature.form_normalises x).mono fun _ => Signature.form_validated_iff.mp
  | unlockBlock =>
      exact (UnlockBlock.form_normalises x).mono fun _ => UnlockBlock.form_validated_iff.mp
  | transaction => exact Transaction.form_normalises params x

/-- **To write again what was read normalises it.**  An object that was read without validation from
the first `n` bytes can be written without validation, in no more bytes.  Whatever follows these,
the same object is read from them, so that reading and writing once more changes nothing. -/
theorem encode_of_decode_structural (params : ProtocolParameters) (family : Family) (data : Bytes)
    (x : family.Object) (n : Nat)
    (h : (family.codec params).decode .structural data = .ok (x, n)) :
    ∃ c, (family.codec params).encode .structural x = .ok c ∧ c.length ≤ n ∧
      ∀ rest, (family.codec params).decode .structural (c ++ rest) = .ok (x, c.length) ∧
        (do
          let (y, _) ← (family.codec params).decode .structural (c ++ rest)
          (family.codec params).encode .structural y) = .ok c := by
  have hreads := reader_reads params .structural family
  obtain ⟨hn, hform⟩ := (hreads data x n).mp h
  obtain ⟨c, hc, hcform, hlen⟩ := form_normalises params family x _ hform
  rw [List.length_take_of_le hn] at hlen
  refine ⟨c, hc, hlen, fun rest => ?_⟩
  have hread : (family.codec params).decode .structural (c ++ rest) = .ok (x, c.length) :=
    hreads.apply_append hcform rest
  refine ⟨hread, ?_⟩
  rw [hread, ok_bind]
  exact hc

/-- A signed transaction whose discriminant takes ten bytes, with 7 for that of the transaction
inside and padded numbers everywhere else. -/
theorem encode_of_decode_structural_padded :
    let data : Bytes := 0x81 :: List.replicate 8 0x80 ++
      [0x00, 7, 0x80, 0x00, 0x80, 0x00, 0x81, 0x00, 42, 0x81, 0x00, 0x81, 0x00, 5, 0]
    let tx : SignedTransaction :=
      { transaction := { payload := some [42] }, unlockBlocks := [.reference ⟨5⟩] }
    (codec {} .transaction).decode .structural data = .ok (.signed tx, 24) ∧
    (codec {} .transaction).encode .structural (.signed tx) = .ok [1, 0, 0, 0, 1, 42, 1, 1, 5, 0] ∧
    (codec {} .transaction).decode .structural ([1, 0, 0, 0, 1, 42, 1, 1, 5, 0] ++ [9])
      = .ok (.signed tx, 10) := by
  intro data tx
  have hpadded : (codec {} .transaction).decode .structural data = .ok (.signed tx, 24) := by
    rfl
  obtain ⟨c, hc, -, hread⟩ := encode_of_decode_structural {} .transaction data _ _ hpadded
  have hwritten : (codec {} .transaction).encode .structural (.signed tx)
      = .ok [1, 0, 0, 0, 1, 42, 1, 1, 5, 0] := by decide +kernel
  obtain rfl := Except.ok.inj (hwritten.symm.trans hc)
  exact ⟨hpadded, hc, (hread [9]).1⟩

end Family

end UtxoWire
