import UtxoWire.Proofs.Narrowing
import UtxoWire.Proofs.Unambiguous

/-!
# Reading back what was written

What is written of an object is read back as that object, and nothing of what follows is touched.
The one exception is a transaction whose payload is there but empty: it is written like one without
a payload, and read back as such.  Nothing but a one-time signature stands in the way of writing.

* `Family.asRead` — what an object is read back as.
* `Family.HoldsOneTime` — the objects that have no wire form.
* `Family.asRead_of_append` — what is written of one object does not begin what is written of
  another.
* **`Family.decode_encode`** — all of this together.
-/

namespace UtxoWire

open Reader (Narrows)

/-! ## Arrays -/

namespace ObjectArray

variable {α : Type} {codec : Codec α} {mode : Mode}

/-- An array can be written exactly when each of its elements can. -/
lemma exists_encode_iff {objects : List α} :
    (∃ bytes, encode codec mode objects = .ok bytes) ↔
      ∀ a ∈ objects, ∃ e, codec.encode mode a = .ok e := by
  have helements : (∃ es, List.Forall₂ (fun a e => codec.encode mode a = .ok e) objects es) ↔
      ∀ a ∈ objects, ∃ e, codec.encode mode a = .ok e := by
    induction objects with
    | nil => simp
    | cons a objects ih =>
        rw [List.forall_mem_cons, ← ih]
        constructor
        · rintro ⟨_, h⟩
          cases h with
          | cons ha hrest => exact ⟨⟨_, ha⟩, _, hrest⟩
        · rintro ⟨⟨e, ha⟩, es, hrest⟩
          exact ⟨e :: es, .cons ha hrest⟩
  rw [← helements]
  constructor
  · rintro ⟨bytes, h⟩
    rcases encode_eq_ok.mp h with ⟨es, hes, -⟩
    exact ⟨es, hes⟩
  · rintro ⟨es, hes⟩
    exact ⟨_, encode_eq_ok.mpr ⟨es, hes, rfl⟩⟩

/-- What is written of an array is a form of it where no rules are set, in any mode, as long as the
same holds of its elements and their number is one of 64 bits. -/
lemma form_of_encode {form : α → Bytes → Prop} {mode' : Mode} {objects : List α} {bytes : Bytes}
    (hform : ∀ a e, codec.encode mode a = .ok e → form a e)
    (h : encode codec mode objects = .ok bytes) (hfits : objects.length < 2 ^ 64) :
    Form form mode' none objects bytes := by
  rcases encode_eq_ok.mp h with ⟨es, hes, rfl⟩
  have hcount : (UInt64.ofNat objects.length).toNat = objects.length := by
    rw [UInt64.toNat_ofNat', Nat.mod_eq_of_lt hfits]
  refine ⟨UInt64.ofNat objects.length, _, es, rfl, ?_, hcount.symm, hes.imp hform, nofun⟩
  have hprefix := Varint.Form.encode mode' (UInt64.ofNat objects.length)
  rwa [Varint.encode, hcount] at hprefix

end ObjectArray

/-! ## Objects other than transactions -/

/-- What is written of an object other than a transaction is a form of it, whatever the mode. -/
lemma Family.form_of_encode (params : ProtocolParameters) (family : Family)
    (hfamily : family ≠ .transaction) {x : family.Object} {bytes : Bytes}
    (h : (family.codec params).encode .structural x = .ok bytes) (mode : Mode) :
    Form params mode family x bytes := by
  have hvalidated : Form params .validated family x bytes := by
    cases family with
    | address => exact Address.form_validated_iff.mpr (Except.ok.inj h).symm
    | input => exact Input.form_validated_iff.mpr (Except.ok.inj h).symm
    | output => exact Output.form_validated_iff.mpr (Except.ok.inj h).symm
    | signature => exact Signature.form_validated_iff.mpr h
    | unlockBlock => exact UnlockBlock.form_validated_iff.mpr h
    | transaction => exact absurd rfl hfamily
  cases mode with
  | validated => exact hvalidated
  | structural =>
      exact (reader_narrows params family).form_mono (reader_reads params .validated family)
        (reader_reads params .structural family) hvalidated

/-! ## Transactions -/

namespace UnsignedTransaction

variable {params : ProtocolParameters}

/-- The transaction as it is read back: a payload that is there but empty is taken for none. -/
def asRead (tx : UnsignedTransaction) : UnsignedTransaction :=
  { tx with payload := tx.payload.filter (· ≠ []) }

lemma asRead_payload_ne (tx : UnsignedTransaction) : tx.asRead.payload ≠ some [] := by
  simp [asRead, Option.filter_eq_some_iff]

lemma content_asRead (tx : UnsignedTransaction) : tx.asRead.content = tx.content := by
  have hpayload : encodePayload (tx.payload.filter (· ≠ [])) = encodePayload tx.payload := by
    rcases tx.payload with _ | _ | ⟨b, rest⟩ <;> simp [encodePayload, Option.filter]
  rw [content, content, asRead, hpayload]

lemma payloadForm_of_encode {payload : Option Bytes} (hne : payload ≠ some [])
    (hlen : (payload.getD []).length < 2 ^ 64) :
    PayloadForm .structural payload (encodePayload payload) :=
  payloadReader_narrows.form_mono payloadReader_reads payloadReader_reads
    (payloadForm_validated_iff.mpr ⟨rfl, hlen, hne⟩)

/-- Without validation what is written is read back, in whatever order and number the parts are. -/
lemma content_structural {tx : UnsignedTransaction} (hne : tx.payload ≠ some [])
    (hlen : tx.content.length < 2 ^ 64) : tx.Content params .structural tx.content := by
  have hinput : ∀ input e, Input.codec.encode .structural input = .ok e →
      Input.Form .structural input e :=
    fun _ _ h => Family.form_of_encode {} .input (by decide) h .structural
  have houtput : ∀ output e, Output.codec.encode .structural output = .ok e →
      Output.Form .structural output e :=
    fun _ _ h => Family.form_of_encode {} .output (by decide) h .structural
  -- there are more bytes than elements, so the count fits into 64 bits
  have hinputs := ObjectArray.length_lt_written Input.encode_ne_nil tx.inputs
  have houtputs := ObjectArray.length_lt_written Output.encode_ne_nil tx.outputs
  have hpayload : (tx.payload.getD []).length ≤ (encodePayload tx.payload).length := by
    simp [encodePayload]
  have hmode : Mode.structural ≠ Mode.validated := by decide
  simp only [content, List.length_append] at hlen
  refine ⟨_, _, _, rfl, ⟨?_, fun h => absurd h hmode⟩, ⟨?_, fun h => absurd h hmode⟩,
    payloadForm_of_encode hne (by omega)⟩
  · exact ObjectArray.form_of_encode hinput (ObjectArray.encode_written (fun _ => rfl) _) (by omega)
  · exact ObjectArray.form_of_encode houtput (ObjectArray.encode_written (fun _ => rfl) _)
      (by omega)

lemma content_asRead_structural {tx : UnsignedTransaction} (hlen : tx.content.length < 2 ^ 64) :
    tx.asRead.Content params .structural tx.content := by
  rw [← content_asRead] at hlen ⊢
  exact content_structural tx.asRead_payload_ne hlen

end UnsignedTransaction

namespace SignedTransaction

variable {params : ProtocolParameters}

/-- The transaction as it is read back, which differs in the one inside alone. -/
def asRead (tx : SignedTransaction) : SignedTransaction :=
  { tx with transaction := tx.transaction.asRead }

lemma content_asRead_structural {tx : SignedTransaction} {b : Bytes}
    (hb : WritesBlocks tx.unlockBlocks b) (hlen : (tx.transaction.content ++ b).length < 2 ^ 64) :
    tx.asRead.Content params .structural
      (Varint.encode UnsignedTransaction.discriminant ++ tx.transaction.content ++ b) := by
  have hblock : ∀ block e, UnlockBlock.codec.encode .structural block = .ok e →
      UnlockBlock.Form .structural block e :=
    fun _ _ h => Family.form_of_encode {} .unlockBlock (by decide) h .structural
  have hwritten : ObjectArray.encode UnlockBlock.codec .structural tx.unlockBlocks = .ok b :=
    encode_blocks_eq_ok.mpr hb
  have hblocks := ObjectArray.length_lt_of_encode (fun _ _ => UnlockBlock.ne_nil_of_encode) hwritten
  rw [List.length_append] at hlen
  have hfits : tx.unlockBlocks.length < 2 ^ 64 := by omega
  refine ⟨_, b, rfl, ?_, ObjectArray.form_of_encode hblock hwritten hfits, nofun⟩
  refine ⟨_, _, rfl, ⟨_, Varint.Form.encode _ _, nofun⟩, ?_⟩
  exact UnsignedTransaction.content_asRead_structural (by omega)

end SignedTransaction

namespace Transaction

variable {params : ProtocolParameters}

def asRead : Transaction → Transaction
  | .unsigned tx => .unsigned tx.asRead
  | .signed tx => .signed tx.asRead

/-- Without validation what is written of a transaction is a form of what it is read back as. -/
lemma form_asRead {tx : Transaction} {bytes : Bytes} (h : tx.encode .structural = .ok bytes)
    (hlen : bytes.length < 2 ^ 64) : tx.asRead.Form params .structural bytes := by
  cases tx with
  | unsigned tx =>
      obtain ⟨-, rfl⟩ := UnsignedTransaction.encode_eq_ok.mp h
      rw [List.length_append] at hlen
      refine ⟨_, _, rfl, Varint.Form.encode _ _, ?_⟩
      exact UnsignedTransaction.content_asRead_structural (by omega)
  | signed tx =>
      obtain ⟨-, b, hb, rfl⟩ := SignedTransaction.encode_eq_ok.mp h
      refine ⟨_, _, rfl, Varint.Form.encode _ _, ?_⟩
      refine SignedTransaction.content_asRead_structural hb ?_
      simp only [List.length_append] at hlen ⊢
      omega

end Transaction

/-! ## Nothing written begins anything else -/

lemma UnsignedTransaction.asRead_of_append {x y : UnsignedTransaction} {u v : Bytes}
    (h : x.content ++ u = y.content ++ v) : x.asRead = y.asRead ∧ u = v :=
  content_unambiguous.eq_of_append ⟨x.content_asRead.symm, x.asRead_payload_ne⟩
    ⟨y.content_asRead.symm, y.asRead_payload_ne⟩ h

lemma SignedTransaction.asRead_of_append {x y : SignedTransaction} {b c u v : Bytes}
    (hb : WritesBlocks x.unlockBlocks b) (hc : WritesBlocks y.unlockBlocks c)
    (h : x.transaction.content ++ b ++ u = y.transaction.content ++ c ++ v) :
    x.asRead = y.asRead ∧ u = v := by
  rw [← x.transaction.content_asRead, ← y.transaction.content_asRead] at h
  exact content_unambiguous.eq_of_append ⟨⟨b, hb, rfl⟩, x.transaction.asRead_payload_ne⟩
    ⟨⟨c, hc, rfl⟩, y.transaction.asRead_payload_ne⟩ h

lemma Transaction.discriminants_apart (u v : Bytes) :
    Varint.encode UnsignedTransaction.discriminant ++ u ≠
      Varint.encode SignedTransaction.discriminant ++ v := by
  have hzero : Varint.encode UnsignedTransaction.discriminant = [0] :=
    Varint.encode_of_lt (by decide)
  have hone : Varint.encode SignedTransaction.discriminant = [1] :=
    Varint.encode_of_lt (by decide)
  simp [hzero, hone]

/-- What is written of a transaction does not begin what is written of another, but for an empty
payload. -/
theorem Transaction.asRead_of_append {x y : Transaction} {s t u v : Bytes}
    (hx : x.encode .structural = .ok s) (hy : y.encode .structural = .ok t)
    (h : s ++ u = t ++ v) : x.asRead = y.asRead ∧ u = v := by
  cases x with
  | unsigned x =>
      obtain ⟨-, rfl⟩ := UnsignedTransaction.encode_eq_ok.mp hx
      cases y with
      | unsigned y =>
          obtain ⟨-, rfl⟩ := UnsignedTransaction.encode_eq_ok.mp hy
          simp only [List.append_assoc, List.append_cancel_left_eq] at h
          rcases UnsignedTransaction.asRead_of_append h with ⟨hsame, huv⟩
          exact ⟨congrArg unsigned hsame, huv⟩
      | signed y =>
          obtain ⟨-, c, -, rfl⟩ := SignedTransaction.encode_eq_ok.mp hy
          simp only [List.append_assoc] at h
          exact absurd h (discriminants_apart _ _)
  | signed x =>
      obtain ⟨-, b, hb, rfl⟩ := SignedTransaction.encode_eq_ok.mp hx
      cases y with
      | unsigned y =>
          obtain ⟨-, rfl⟩ := UnsignedTransaction.encode_eq_ok.mp hy
          simp only [List.append_assoc] at h
          exact absurd h.symm (discriminants_apart _ _)
      | signed y =>
          obtain ⟨-, c, hc, rfl⟩ := SignedTransaction.encode_eq_ok.mp hy
          have hcontent : x.transaction.content ++ b ++ u = y.transaction.content ++ c ++ v := by
            simpa only [List.append_assoc, List.append_cancel_left_eq] using h
          rcases SignedTransaction.asRead_of_append hb hc hcontent with ⟨hsame, huv⟩
          exact ⟨congrArg signed hsame, huv⟩

/-! ## One-time signatures -/

/-- The signature is a one-time signature. -/
def Signature.IsOneTime : Signature → Prop
  | .wots _ => True
  | .ed25519 _ => False

/-- The block holds a one-time signature. -/
def UnlockBlock.HoldsOneTime (block : UnlockBlock) : Prop :=
  ∃ s, block.signature? = some s ∧ s.IsOneTime

/-- One of the unlock blocks holds a one-time signature. -/
def Transaction.HoldsOneTime : Transaction → Prop
  | .unsigned _ => False
  | .signed tx => ∃ block ∈ tx.unlockBlocks, block.HoldsOneTime

lemma Signature.exists_encode_iff {s : Signature} :
    (∃ bytes, s.encode = .ok bytes) ↔ ¬ s.IsOneTime := by
  cases s with
  | wots s => simp [encode, WotsSignature.encode, IsOneTime]
  | ed25519 s => simp [encode, IsOneTime]

lemma UnlockBlock.exists_encode_iff {block : UnlockBlock} :
    (∃ bytes, block.encode = .ok bytes) ↔ ¬ block.HoldsOneTime := by
  cases block with
  | signature block =>
      rcases block with ⟨s⟩
      rw [HoldsOneTime]
      simp only [signature?, Option.some.injEq, exists_eq_left', ← Signature.exists_encode_iff]
      simp [encode, SignatureUnlockBlock.encode, bind_eq_ok]
  | reference block => simp [encode, HoldsOneTime, signature?]

lemma Transaction.exists_encode_iff {tx : Transaction} :
    (∃ bytes, tx.encode .structural = .ok bytes) ↔ ¬ tx.HoldsOneTime := by
  cases tx with
  | unsigned tx => simp [encode, UnsignedTransaction.encode_eq_ok, HoldsOneTime]
  | signed tx =>
      have hwrites : ∀ b, SignedTransaction.WritesBlocks tx.unlockBlocks b ↔
          ObjectArray.encode UnlockBlock.codec .structural tx.unlockBlocks = .ok b :=
        fun _ => SignedTransaction.encode_blocks_eq_ok.symm
      have hblocks : (∃ b, SignedTransaction.WritesBlocks tx.unlockBlocks b) ↔
          ∀ block ∈ tx.unlockBlocks, ¬ block.HoldsOneTime := by
        simp only [hwrites, ← UnlockBlock.exists_encode_iff]
        exact ObjectArray.exists_encode_iff
      simp [encode, SignedTransaction.encode_eq_ok, HoldsOneTime, hblocks]

/-! ## All families -/

namespace Family

variable {params : ProtocolParameters}

/-- The object as it is read back. -/
def asRead : (family : Family) → family.Object → family.Object
  | .address, x | .input, x | .output, x | .signature, x | .unlockBlock, x => x
  | .transaction, tx => Transaction.asRead tx

/-- There is a one-time signature in the object. -/
def HoldsOneTime : (family : Family) → family.Object → Prop
  | .address, _ | .input, _ | .output, _ => False
  | .signature, s => Signature.IsOneTime s
  | .unlockBlock, block => UnlockBlock.HoldsOneTime block
  | .transaction, tx => Transaction.HoldsOneTime tx

lemma asRead_of_ne {family : Family} (h : family ≠ .transaction) (x : family.Object) :
    family.asRead x = x := by
  cases family with
  | transaction => exact absurd rfl h
  | _ => rfl

/-- Without validation what is written of an object is a form of what it is read back as. -/
lemma form_asRead {family : Family} {x : family.Object} {bytes : Bytes}
    (h : (family.codec params).encode .structural x = .ok bytes) (hlen : bytes.length < 2 ^ 64) :
    Form params .structural family (family.asRead x) bytes := by
  by_cases hfamily : family = .transaction
  · subst hfamily
    exact Transaction.form_asRead h hlen
  · rw [asRead_of_ne hfamily]
    exact form_of_encode params family hfamily h .structural

lemma exists_encode_iff {family : Family} {x : family.Object} :
    (∃ bytes, (family.codec params).encode .structural x = .ok bytes) ↔
      ¬ family.HoldsOneTime x := by
  cases family with
  | address | input | output => simp [codec, Address.codec, Input.codec, Output.codec, HoldsOneTime]
  | signature => exact Signature.exists_encode_iff
  | unlockBlock => exact UnlockBlock.exists_encode_iff
  | transaction => exact Transaction.exists_encode_iff

/-- What is written of an object does not begin what is written of another, but for an empty
payload. -/
lemma asRead_of_append {family : Family} {x y : family.Object} {s t u v : Bytes}
    (hx : (family.codec params).encode .structural x = .ok s)
    (hy : (family.codec params).encode .structural y = .ok t) (h : s ++ u = t ++ v) :
    family.asRead x = family.asRead y ∧ u = v := by
  by_cases hfamily : family = .transaction
  · subst hfamily
    exact Transaction.asRead_of_append hx hy h
  · rw [asRead_of_ne hfamily, asRead_of_ne hfamily]
    exact (reader_reads params .structural family).unambiguous.eq_of_append
      (form_of_encode params family hfamily hx .structural)
      (form_of_encode params family hfamily hy .structural) h

/-- **What is written is read back.**  Whatever follows it in bytes that fit into an address space,
an object is read back without validation, and all that was written of it is taken.  An object other
than a transaction is read back under validation, too.  Only one-time signatures cannot be written.
And nothing that is written begins, or equals, what is written of another object, but for an empty
payload. -/
theorem decode_encode (params : ProtocolParameters) (family : Family) :
    (∀ x bytes rest, (family.codec params).encode .structural x = .ok bytes →
      bytes.length < 2 ^ 64 →
        (family.codec params).decode .structural (bytes ++ rest)
          = .ok (family.asRead x, bytes.length)) ∧
    (family ≠ .transaction → ∀ x bytes rest,
      (family.codec params).encode .structural x = .ok bytes →
        (family.codec params).decode .structural (bytes ++ rest) = .ok (x, bytes.length) ∧
          (family.codec params).decode .validated (bytes ++ rest) = .ok (x, bytes.length)) ∧
    (∀ x, (∃ bytes, (family.codec params).encode .structural x = .ok bytes) ↔
      ¬ family.HoldsOneTime x) ∧
    (∀ x y bytes rest, (family.codec params).encode .structural x = .ok bytes →
      (family.codec params).encode .structural y = .ok (bytes ++ rest) →
        rest = [] ∧ family.asRead x = family.asRead y) := by
  refine ⟨?_, ?_, fun x => exists_encode_iff, ?_⟩
  · intro x bytes rest h hlen
    exact (reader_reads params .structural family).apply_append (form_asRead h hlen) rest
  · intro hfamily x bytes rest h
    have hform : ∀ mode, Form params mode family x bytes := form_of_encode params family hfamily h
    exact ⟨(reader_reads params .structural family).apply_append (hform .structural) rest,
      (reader_reads params .validated family).apply_append (hform .validated) rest⟩
  · intro x y bytes rest hx hy
    rcases asRead_of_append hx hy (List.append_nil _).symm with ⟨hsame, hrest⟩
    exact ⟨hrest, hsame⟩

/-- A signed transaction without inputs, but with an empty payload and an unlock block that refers
to nothing; and an unlock block with a one-time signature. -/
theorem decode_encode_signed :
    let tx : SignedTransaction :=
      { transaction := { payload := some [] }, unlockBlocks := [.reference ⟨5⟩] }
    ((codec {} .transaction).encode .structural (.signed tx) = .ok [1, 0, 0, 0, 0, 1, 1, 5, 0] ∧
      (codec {} .transaction).decode .structural ([1, 0, 0, 0, 0, 1, 1, 5, 0] ++ [9, 9])
        = .ok (.signed { unlockBlocks := [.reference ⟨5⟩] }, 9)) ∧
    (codec {} .unlockBlock).decode .validated ([1, 5, 0] ++ [9, 9]) = .ok (.reference ⟨5⟩, 3) ∧
    (¬ ∃ bytes, (codec {} .unlockBlock).encode .structural (.signature ⟨.wots {}⟩) = .ok bytes) ∧
    ∀ y rest, (codec {} .transaction).encode .structural y
      = .ok ([1, 0, 0, 0, 0, 1, 1, 5, 0] ++ rest) → rest = [] := by
  intro tx
  have hwritten : (codec {} .transaction).encode .structural (.signed tx)
      = .ok [1, 0, 0, 0, 0, 1, 1, 5, 0] := by decide +kernel
  have hblock : (codec {} .unlockBlock).encode .structural (.reference ⟨5⟩) = .ok [1, 5, 0] := by
    decide +kernel
  obtain ⟨hread, -, -, happend⟩ := decode_encode {} .transaction
  obtain ⟨-, hboth, hone, -⟩ := decode_encode {} .unlockBlock
  have hread' := hread (.signed tx) _ [9, 9] hwritten (by decide)
  refine ⟨⟨hwritten, hread'⟩, (hboth (by decide) (.reference ⟨5⟩) _ [9, 9] hblock).2, ?_, ?_⟩
  · intro hwritable
    exact (hone _).mp hwritable ⟨.wots {}, rfl, trivial⟩
  · intro y rest hy
    exact (happend _ y _ rest hwritten hy).1

end Family

end UtxoWire
