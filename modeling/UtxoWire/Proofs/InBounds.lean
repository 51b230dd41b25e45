import UtxoWire.Proofs.Failures
import UtxoWire.Proofs.History

/-!
# Reading stays within its bytes

Whoever reads an object cuts its bytes into pieces by lengths that were read, or counted, before.  A
piece that reaches past the end is an error of its own, and so is a group of a number that is moved
past the end of a word.  No bytes lead there.  And since at least the discriminant is taken, a
success never claims to have taken nothing, or more than there was.

* `StaysWithin` — what a reading within its bytes comes to.
* `Reader.staysWithin` — forms that are not empty, and failures of reading, are all it needs.
* `Variant.decodeInto_staysWithin`, `Family.reader_staysWithin` — objects on their own and of a
  family.
* **`Reading.outcome_staysWithin`** — everything that is read.
-/

namespace UtxoWire

open Reader (Reads FailsWith)

variable {α : Type}

/-- A reading that stays within its bytes takes at least one of them and no more than there are, or
it fails, but not for a position out of range. -/
def StaysWithin (data : Bytes) : Except WireError Nat → Prop
  | .ok taken => 1 ≤ taken ∧ taken ≤ data.length
  | .error e => ∀ position limit, e.rootCause ≠ .outOfRange position limit

/-! ## Readers and updates -/

section

variable {data : Bytes} {reader : Reader α} {form : α → Bytes → Prop}

/-- A reader stays within its bytes if it reads forms that are not empty, and fails for nothing but
what reading can fail for. -/
theorem Reader.staysWithin (hreads : Reads reader form)
    (hform : ∀ a bytes, form a bytes → 0 < bytes.length)
    (hfails : FailsWith WireError.OfReading reader) (data : Bytes) :
    StaysWithin data ((reader data).map Prod.snd) := by
  cases h : reader data with
  | error e => exact (hfails data e h).ne_outOfRange
  | ok p =>
      rcases (hreads data p.1 p.2).mp h with ⟨hn, ha⟩
      have hpos := hform _ _ ha
      rw [List.length_take_of_le hn] at hpos
      exact ⟨hpos, hn⟩

/-- A discriminant is never empty. -/
lemma Reader.staysWithin_headed {mode : Mode} {expected : UInt64} {content : α → Bytes → Prop}
    (hreads : Reads reader fun a => Headed mode expected (content a))
    (hfails : FailsWith WireError.OfReading reader) :
    StaysWithin data ((reader data).map Prod.snd) :=
  staysWithin hreads (fun _ _ h => h.length_pos) hfails data

/-- An update stays within its bytes if the reader it follows does, whatever object it changes. -/
lemma Update.Follows.staysWithin {update : Update α Nat} (h : update.Follows reader data 0)
    (hreader : StaysWithin data ((reader data).map Prod.snd)) (object : α) :
    StaysWithin data (update.apply object).1 := by
  rw [h object]
  cases hread : reader data with
  | error e =>
      rw [hread] at hreader
      exact hreader
  | ok p =>
      rw [hread] at hreader
      simpa [Except.map] using hreader

end

/-! ## Objects -/

lemma Varint.reader_staysWithin (data : Bytes) :
    StaysWithin data ((reader data).map Prod.snd) := by
  cases h : reader data with
  | error e => exact (reader_failsWith.bare.ofReading data e h).ne_outOfRange
  | ok p =>
      rcases decode_eq_ok.mp h with ⟨hn, -, hspells⟩
      have hpos := hspells.length_pos
      rw [List.length_take_of_le hn] at hpos
      exact ⟨hpos, hn⟩

/-- Whatever object it is read over, a variant is read within its bytes. -/
theorem Variant.decodeInto_staysWithin (r : Reading) (variant : Variant)
    (object : variant.Object) : StaysWithin r.data ((variant.decodeInto r).apply object).1 := by
  cases variant with
  | ed25519Address =>
      refine (Ed25519Address.decodeInto_follows r.data).staysWithin ?_ object
      exact Reader.staysWithin_headed Ed25519Address.reader_reads
        Ed25519Address.reader_failsWith.ofReading
  | utxoInput =>
      refine (UtxoInput.decodeInto_follows r.data).staysWithin ?_ object
      exact Reader.staysWithin_headed UtxoInput.reader_reads
        UtxoInput.reader_failsWith.ofReading
  | singleDeposit =>
      refine (SingleDeposit.decodeInto_follows r.data).staysWithin ?_ object
      exact Reader.staysWithin_headed SingleDeposit.reader_reads
        SingleDeposit.reader_failsWith
  | wotsSignature =>
      -- it has no form at all
      refine (WotsSignature.decodeInto_follows r.mode r.data).staysWithin ?_ object
      exact Reader.staysWithin WotsSignature.reader_reads (fun _ _ h => h.elim)
        WotsSignature.reader_failsWith.ofReading r.data
  | ed25519Signature =>
      refine (Ed25519Signature.decodeInto_follows r.data).staysWithin ?_ object
      exact Reader.staysWithin_headed Ed25519Signature.reader_reads
        Ed25519Signature.reader_failsWith.ofReading
  | signatureUnlockBlock =>
      refine (SignatureUnlockBlock.decodeInto_follows r.data).staysWithin ?_ object
      exact Reader.staysWithin_headed SignatureUnlockBlock.reader_reads
        SignatureUnlockBlock.reader_failsWith
  | referenceUnlockBlock =>
      refine (ReferenceUnlockBlock.decodeInto_follows r.data).staysWithin ?_ object
      exact Reader.staysWithin_headed ReferenceUnlockBlock.reader_reads
        ReferenceUnlockBlock.reader_failsWith.ofReading
  | unsignedTransaction =>
      refine (UnsignedTransaction.decodeInto_follows r.data).staysWithin ?_ object
      exact Reader.staysWithin_headed UnsignedTransaction.reader_reads
        UnsignedTransaction.reader_failsWith
  | signedTransaction =>
      refine (SignedTransaction.decodeInto_follows r.data).staysWithin ?_ object
      exact Reader.staysWithin_headed SignedTransaction.reader_reads
        SignedTransaction.reader_failsWith

/-- Within its family it is, too. -/
lemma Variant.decodeIntoFamily_staysWithin (r : Reading) (variant : Variant)
    (object : variant.Object) :
    StaysWithin r.data ((variant.decodeIntoFamily r).apply (variant.wrap object)).1 := by
  rw [decodeIntoFamily_apply]
  exact variant.decodeInto_staysWithin r object

/-! ## Families and arrays -/

namespace Family

variable (params : ProtocolParameters) (mode : Mode) (family : Family)

lemma Form.length_pos {params : ProtocolParameters} {mode : Mode} {family : Family}
    {x : family.Object} {bytes : Bytes} (h : Form params mode family x bytes) :
    0 < bytes.length := by
  cases family <;> exact Tagged.length_pos h

theorem decode_staysWithin (data : Bytes) :
    StaysWithin data (((family.codec params).decode mode data).map Prod.snd) :=
  Reader.staysWithin (reader_reads params mode family) (fun _ _ h => h.length_pos)
    (reader_failsWith params family) data

theorem decode_array_staysWithin (rules : Option ArrayRules) (data : Bytes) :
    StaysWithin data
      ((ObjectArray.decode (family.codec params) mode rules data).map Prod.snd) := by
  rw [ObjectArray.decode_eq (reader_steady params mode family)]
  refine Reader.staysWithin (ObjectArray.reader_reads (reader_reads params mode family) rules) ?_
    (ObjectArray.reader_failsWith (fun _ h => h.bare.ofReading) (reader_failsWith params family)
      rules) data
  rintro objects bytes ⟨count, prefixed, elements, rfl, hcount, -⟩
  have hpos := hcount.length_pos
  rw [List.length_append]
  omega

/-- What is left over after an object is counted exactly: there is some, and with what the object
took it makes up all the bytes. -/
lemma decodeExact_error {data : Bytes} {e : WireError}
    (h : (family.codec params).decodeExact mode data = .error e) :
    e.OfReading ∨ ∃ consumed trailing, e = .trailingBytes consumed trailing ∧
      1 ≤ consumed ∧ 1 ≤ trailing ∧ consumed + trailing = data.length := by
  rcases Codec.decodeExact_eq_error.mp h with hdecode | ⟨x, n, hdecode, hne, rfl⟩
  · exact .inl (reader_failsWith params family data e hdecode)
  · have hwithin := decode_staysWithin params mode family data
    rw [hdecode] at hwithin
    have hpos : 1 ≤ n := hwithin.1
    have hle : n ≤ data.length := hwithin.2
    exact .inr ⟨_, _, rfl, hpos, by omega, by omega⟩

end Family

/-- **Reading stays within its bytes.**  Whatever the bytes, the mode and the parameters: a number,
an object over another, an object of a family, and an array of objects under any rules are read
without a slice past the end and without a shift past the word, and a success takes at least one
byte and no more than there are.  An object that has to take all the bytes therefore leaves over
exactly what it did not take. -/
theorem Reading.outcome_staysWithin (r : Reading) :
    StaysWithin r.data ((Varint.decode r.data).map Prod.snd) ∧
    (∀ (variant : Variant) (object : variant.Object),
      StaysWithin r.data ((variant.decodeInto r).apply object).1 ∧
      StaysWithin r.data ((variant.decodeIntoFamily r).apply (variant.wrap object)).1) ∧
    ∀ family : Family,
      StaysWithin r.data (((family.codec r.params).decode r.mode r.data).map Prod.snd) ∧
      (∀ rules, StaysWithin r.data
        ((ObjectArray.decode (family.codec r.params) r.mode rules r.data).map Prod.snd)) ∧
      ∀ e, (family.codec r.params).decodeExact r.mode r.data = .error e →
        (∀ position limit, e.rootCause ≠ .outOfRange position limit) ∧
        ∀ consumed trailing, e = .trailingBytes consumed trailing →
          1 ≤ consumed ∧ 1 ≤ trailing ∧ consumed + trailing = r.data.length := by
  refine ⟨Varint.reader_staysWithin r.data, fun variant object => ?_, fun family => ?_⟩
  · exact ⟨variant.decodeInto_staysWithin r object, variant.decodeIntoFamily_staysWithin r object⟩
  refine ⟨family.decode_staysWithin r.params r.mode r.data,
    fun rules => family.decode_array_staysWithin r.params r.mode rules r.data, fun e he => ?_⟩
  rcases family.decodeExact_error r.params r.mode he with hreading | ⟨n, m, rfl, hn, hm, hsum⟩
  · refine ⟨hreading.ne_outOfRange, ?_⟩
    rintro consumed trailing rfl
    exact absurd rfl (hreading.ne_trailingBytes consumed trailing)
  · refine ⟨fun position limit => nofun, ?_⟩
    rintro consumed trailing ⟨⟩
    exact ⟨hn, hm, hsum⟩

/-- A reference unlock block whose discriminant takes three bytes without validation, followed by
one byte too many. -/
theorem Reading.outcome_staysWithin_referenceUnlockBlock :
    let r : Reading := { mode := .structural, data := [0x81, 0x80, 0x00, 5, 0, 9] }
    (Family.codec r.params .unlockBlock).decodeExact r.mode r.data = .error (.trailingBytes 5 1) ∧
      (1 ≤ 5 ∧ 1 ≤ 1 ∧ 5 + 1 = r.data.length) := by
  intro r
  have hexact : (Family.codec r.params .unlockBlock).decodeExact r.mode r.data
      = .error (.trailingBytes 5 1) := rfl
  rcases r.outcome_staysWithin with ⟨-, -, hfamily⟩
  exact ⟨hexact, ((hfamily .unlockBlock).2.2 _ hexact).2 5 1 rfl⟩

end UtxoWire
