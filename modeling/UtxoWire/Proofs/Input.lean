import UtxoWire.Input
import UtxoWire.Proofs.Codec

/-!
# Inputs

The reader of inputs, and the forms it takes: the discriminant followed by the reference.

* `Input.reader_steady`, `Input.reader_reads` — how inputs are read.
* `Input.form_validated_iff` — under validation an input has one form, the one that is written.
-/

namespace UtxoWire

open Reader (Steady Reads)

namespace UtxoInput

def reader (mode : Mode) : Reader UtxoInput := do
  Reader.atLeast wireSize
  Reader.discriminant mode .input discriminant
  Reader.atLeast referenceLength
  let transactionId ← Reader.fixed 32
  let outputIndex ← Reader.word16
  return ⟨transactionId, outputIndex⟩

variable {mode : Mode}

lemma decodeInto_follows (data : Bytes) :
    (decodeInto mode data).Follows (reader mode) data 0 := by
  unfold decodeInto reader
  refine .atLeast fun _ => .discriminant fun length => .atLeast fun hlen => ?_
  generalize data.drop length = body at hlen
  have h32 : 32 ≤ body.length := Nat.le_trans (by decide) hlen
  have h2 : 2 ≤ (body.drop 32).length := by
    rw [List.length_drop]
    exact Nat.le_sub_of_add_le' hlen
  have hskip : Bytes.skip transactionIdLength body = .ok (body.drop 32) := Bytes.skip_eq_ok h32
  let new : UtxoInput := ⟨⟨body.take 32, List.length_take_of_le h32⟩,
    UInt16.ofNat (ofLittleEndian ((body.drop 32).take 2))⟩
  -- the check has left nothing that could fail between the two changes
  refine .done new referenceLength ?_ fun _ => ?_
  · rw [Reader.bind_of_ok (Reader.fixed_eq_ok h32), Reader.word16,
      Reader.bind_of_ok (Reader.bind_of_ok (Reader.fixed_eq_ok h2))]
    rfl
  · rw [Update.apply_lift_bind (Bytes.first_eq_ok h32), Update.apply_modify_bind,
      Update.apply_lift_bind hskip, Update.apply_lift_bind (Bytes.first_eq_ok h2),
      Update.apply_modify_bind, Nat.zero_add]
    rfl

lemma reader_steady : Steady (reader mode) :=
  (Steady.atLeast _).bind fun _ => Reader.discriminant_steady.bind fun _ =>
    (Steady.atLeast _).bind fun _ => (Steady.fixed _).bind fun _ =>
      Reader.word16_steady.bind fun _ => .pure _

lemma length_reference (input : UtxoInput) : input.reference.length = referenceLength := by
  rw [reference, List.length_append, input.transactionId.length_eq, length_toLittleEndian]
  rfl

lemma reader_reads :
    Reads (reader mode) fun input => Headed mode discriminant (· = input.reference) := by
  have hreference : Reads (do
        let transactionId ← Reader.fixed 32
        let outputIndex ← Reader.word16
        return (⟨transactionId, outputIndex⟩ : UtxoInput))
      fun input bytes => bytes = input.reference := by
    refine ((Reads.fixed _).bind fun id => Reader.word16_reads.map _).congr fun input bytes => ?_
    constructor
    · rintro ⟨id, s, t, rfl, rfl, index, rfl, rfl⟩
      rfl
    · rintro rfl
      exact ⟨input.transactionId, _, _, rfl, rfl, input.outputIndex, rfl, rfl⟩
  have hlen : Reads (do
        Reader.atLeast referenceLength
        let transactionId ← Reader.fixed 32
        let outputIndex ← Reader.word16
        return (⟨transactionId, outputIndex⟩ : UtxoInput))
      fun input bytes => bytes = input.reference :=
    hreference.atLeast_bind fun input _ h => by simp [h, length_reference]
  exact hlen.headed.atLeast_bind fun input _ h =>
    h.length_lt (n := referenceLength) fun _ hc => by simp [hc, length_reference]

end UtxoInput

namespace Input

def tag : Input → UInt64
  | .utxo _ => UtxoInput.discriminant

/-- What follows the discriminant of an input. -/
def Content : Input → Bytes → Prop
  | .utxo input => (· = input.reference)

def Form (mode : Mode) (input : Input) : Bytes → Prop :=
  Tagged mode input.tag input.Content

variable {mode : Mode}

lemma body_eq (input : UtxoInput) : codec.body mode (.utxo input) =
    (do let new ← UtxoInput.reader mode; return .utxo new) :=
  Codec.body_eq (UtxoInput.decodeInto_follows) fun _ => rfl

theorem reader_steady : Steady (codec.reader mode) := by
  refine Codec.reader_steady fun blank => ?_
  cases blank with
  | utxo input =>
      rw [body_eq]
      exact UtxoInput.reader_steady.bind fun _ => .pure _

/-- An empty object is of the variant whose number it was found under. -/
lemma tag_of_blank {number : UInt64} {input : Input} (h : blank number = .ok input) :
    input.tag = number := by
  unfold blank at h
  split at h
  · next hn => cases h; exact hn.symm
  · cases h

theorem reader_reads : Reads (codec.reader mode) (Form mode) := by
  refine Codec.reader_reads tag_of_blank ?_ ?_
  · intro input
    cases input with
    | utxo input => exact ⟨.utxo default, rfl⟩
  · intro blank
    cases blank with
    | utxo input =>
        rw [body_eq]
        refine (UtxoInput.reader_reads.map _).congr fun new bytes => ?_
        cases new with
        | utxo new => simp [tag, Content]

/-- **Under validation an input has one form.** -/
theorem form_validated_iff {input : Input} {bytes : Bytes} :
    input.Form .validated bytes ↔ bytes = input.encode := by
  rw [Form, tagged_validated_iff]
  cases input with
  | utxo input => simp [tag, Content, encode, UtxoInput.encode]

lemma encode_ne_nil (input : Input) : input.encode ≠ [] := by
  cases input with
  | utxo input => exact List.append_ne_nil_of_left_ne_nil (Varint.encode_ne_nil _) _

end Input

end UtxoWire
