import UtxoWire.UnlockBlock
import UtxoWire.Proofs.Signature

/-!
# Unlock blocks

The reader of unlock blocks, and the forms it takes: those of the signature that a block holds, or
the place that it names.

* `UnlockBlock.reader_steady`, `UnlockBlock.reader_reads` — how unlock blocks are read.
* `UnlockBlock.form_validated_iff` — under validation an unlock block has one form, the one that is
  written, if it has one at all.
-/

namespace UtxoWire

open Reader (Steady Reads)

namespace SignatureUnlockBlock

def reader (mode : Mode) : Reader SignatureUnlockBlock := do
  Reader.discriminant mode .unlockBlock discriminant
  let signature ← Signature.codec.reader mode
  return ⟨signature⟩

variable {mode : Mode}

lemma decodeInto_follows (data : Bytes) :
    (decodeInto mode data).Follows (reader mode) data 0 := by
  unfold decodeInto reader
  refine .discriminant fun length => ?_
  refine .read (Signature.codec.reader mode) fun signature n _ => .done _ _ rfl fun _ => ?_
  rw [Nat.zero_add]
  rfl

lemma reader_steady : Steady (reader mode) :=
  Reader.discriminant_steady.bind fun _ => Signature.reader_steady.bind fun _ => .pure _

lemma reader_reads :
    Reads (reader mode) fun block => Headed mode discriminant (block.signature.Form mode) := by
  refine Reads.headed ((Signature.reader_reads.map _).congr fun block bytes => ?_)
  exact ⟨fun ⟨_, hb, h⟩ => hb ▸ h, fun h => ⟨block.signature, rfl, h⟩⟩

end SignatureUnlockBlock

namespace ReferenceUnlockBlock

def reader (mode : Mode) : Reader ReferenceUnlockBlock := do
  Reader.atLeast wireSize
  Reader.discriminant mode .unlockBlock discriminant
  let reference ← Reader.word16
  return ⟨reference⟩

variable {mode : Mode}

lemma decodeInto_follows (data : Bytes) :
    (decodeInto mode data).Follows (reader mode) data 0 := by
  unfold decodeInto reader Reader.word16
  simp only [bind_assoc (m := Reader), pure_bind]
  refine .atLeast fun _ => .discriminant fun length => ?_
  refine .fixed fun reference => .done _ _ rfl fun _ => ?_
  rw [Nat.zero_add]
  rfl

lemma reader_steady : Steady (reader mode) :=
  (Steady.atLeast _).bind fun _ => Reader.discriminant_steady.bind fun _ =>
    Reader.word16_steady.bind fun _ => .pure _

lemma reader_reads : Reads (reader mode) fun block =>
    Headed mode discriminant (· = toLittleEndian 2 block.reference.toNat) := by
  have hreference : Reads (do
        let reference ← Reader.word16
        return (⟨reference⟩ : ReferenceUnlockBlock))
      fun block bytes => bytes = toLittleEndian 2 block.reference.toNat := by
    refine (Reader.word16_reads.map _).congr fun block bytes => ?_
    exact ⟨fun ⟨_, hb, h⟩ => hb ▸ h, fun h => ⟨block.reference, rfl, h⟩⟩
  exact hreference.headed.atLeast_bind fun block _ h =>
    h.length_lt (n := 2) fun _ hc => by simp [hc]

end ReferenceUnlockBlock

namespace UnlockBlock

def tag : UnlockBlock → UInt64
  | .signature _ => SignatureUnlockBlock.discriminant
  | .reference _ => ReferenceUnlockBlock.discriminant

/-- What follows the discriminant of an unlock block. -/
def Content (mode : Mode) : UnlockBlock → Bytes → Prop
  | .signature block => block.signature.Form mode
  | .reference block => (· = toLittleEndian 2 block.reference.toNat)

def Form (mode : Mode) (block : UnlockBlock) : Bytes → Prop :=
  Tagged mode block.tag (block.Content mode)

variable {mode : Mode}

lemma body_signature (block : SignatureUnlockBlock) : codec.body mode (.signature block) =
    (do let new ← SignatureUnlockBlock.reader mode; return .signature new) :=
  Codec.body_eq SignatureUnlockBlock.decodeInto_follows fun _ => rfl

lemma body_reference (block : ReferenceUnlockBlock) : codec.body mode (.reference block) =
    (do let new ← ReferenceUnlockBlock.reader mode; return .reference new) :=
  Codec.body_eq ReferenceUnlockBlock.decodeInto_follows fun _ => rfl

theorem reader_steady : Steady (codec.reader mode) := by
  refine Codec.reader_steady fun blank => ?_
  cases blank with
  | signature block =>
      rw [body_signature]
      exact SignatureUnlockBlock.reader_steady.bind fun _ => .pure _
  | reference block =>
      rw [body_reference]
      exact ReferenceUnlockBlock.reader_steady.bind fun _ => .pure _

/-- An empty object is of the variant whose number it was found under. -/
lemma tag_of_blank {number : UInt64} {block : UnlockBlock} (h : blank number = .ok block) :
    block.tag = number := by
  unfold blank at h
  split at h
  · next hn => cases h; exact hn.symm
  · split at h
    · next hn => cases h; exact hn.symm
    · cases h

theorem reader_reads : Reads (codec.reader mode) (Form mode) := by
  refine Codec.reader_reads tag_of_blank ?_ ?_
  · intro block
    cases block with
    | signature block => exact ⟨.signature default, rfl⟩
    | reference block => exact ⟨.reference default, rfl⟩
  · intro blank
    cases blank with
    | signature block =>
        rw [body_signature]
        refine (SignatureUnlockBlock.reader_reads.map _).congr fun new bytes => ?_
        cases new with
        | signature new => simp [tag, Content]
        | reference new =>
            simp [tag, SignatureUnlockBlock.discriminant, ReferenceUnlockBlock.discriminant]
    | reference block =>
        rw [body_reference]
        refine (ReferenceUnlockBlock.reader_reads.map _).congr fun new bytes => ?_
        cases new with
        | signature new =>
            simp [tag, SignatureUnlockBlock.discriminant, ReferenceUnlockBlock.discriminant]
        | reference new => simp [tag, Content]

/-- **Under validation an unlock block has one form**, unless it has none. -/
theorem form_validated_iff {block : UnlockBlock} {bytes : Bytes} :
    block.Form .validated bytes ↔ block.encode = .ok bytes := by
  rw [Form, tagged_validated_iff]
  cases block with
  | signature block =>
      simp only [Content, Signature.form_validated_iff, tag, encode, SignatureUnlockBlock.encode,
        bind_eq_ok, pure_eq_ok, Except.ok.injEq]
      exact exists_congr fun c => by rw [and_comm, eq_comm (a := bytes)]
  | reference block =>
      simp [tag, Content, encode, ReferenceUnlockBlock.encode, eq_comm]

lemma ne_nil_of_encode {block : UnlockBlock} {bytes : Bytes} (h : block.encode = .ok bytes) :
    bytes ≠ [] := by
  obtain ⟨c, rfl, -⟩ := tagged_validated_iff.mp (form_validated_iff.mpr h)
  exact List.append_ne_nil_of_left_ne_nil (Varint.encode_ne_nil _) _

end UnlockBlock

end UtxoWire
