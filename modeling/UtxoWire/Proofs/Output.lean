import UtxoWire.Output
import UtxoWire.Proofs.Address

/-!
# Outputs

The reader of outputs, and the forms it takes.  A deposit holds an address, whose discriminant may
take any form that the mode allows.

* `Output.reader_steady`, `Output.reader_reads` — how outputs are read.
* `Output.form_validated_iff` — under validation an output has one form, the one that is written.
-/

namespace UtxoWire

open Reader (Steady Reads)

namespace SingleDeposit

def reader (mode : Mode) : Reader SingleDeposit := do
  Reader.discriminant mode .output discriminant
  let address ← Address.codec.reader mode
  let amount ← Reader.word64
  return ⟨address, amount⟩

variable {mode : Mode}

lemma decodeInto_follows (data : Bytes) :
    (decodeInto mode data).Follows (reader mode) data 0 := by
  unfold decodeInto reader Reader.word64
  simp only [bind_assoc (m := Reader), pure_bind]
  refine .discriminant fun length => ?_
  refine .read (Address.codec.reader mode) fun address n h => ?_
  refine .silent (Bytes.skip_eq_ok (Address.reader_steady.le_length h)) ?_
  refine .fixed fun amount => .done _ _ rfl fun _ => ?_
  rw [Nat.zero_add]
  rfl

lemma reader_steady : Steady (reader mode) :=
  Reader.discriminant_steady.bind fun _ => Address.reader_steady.bind fun _ =>
    Reader.word64_steady.bind fun _ => .pure _

/-- What follows the discriminant of a deposit. -/
def Content (mode : Mode) (deposit : SingleDeposit) (bytes : Bytes) : Prop :=
  ∃ s, bytes = s ++ toLittleEndian 8 deposit.amount.toNat ∧ deposit.address.Form mode s

lemma reader_reads :
    Reads (reader mode) fun deposit => Headed mode discriminant (deposit.Content mode) := by
  refine Reads.headed ?_
  refine (Address.reader_reads.bind fun _ => Reader.word64_reads.map _).congr
    fun deposit bytes => ?_
  constructor
  · rintro ⟨address, s, t, rfl, ha, amount, rfl, rfl⟩
    exact ⟨s, rfl, ha⟩
  · rintro ⟨s, rfl, ha⟩
    exact ⟨deposit.address, s, _, rfl, ha, deposit.amount, rfl, rfl⟩

end SingleDeposit

namespace Output

def tag : Output → UInt64
  | .singleDeposit _ => SingleDeposit.discriminant

/-- What follows the discriminant of an output. -/
def Content (mode : Mode) : Output → Bytes → Prop
  | .singleDeposit deposit => deposit.Content mode

def Form (mode : Mode) (output : Output) : Bytes → Prop :=
  Tagged mode output.tag (output.Content mode)

variable {mode : Mode}

lemma body_eq (deposit : SingleDeposit) : codec.body mode (.singleDeposit deposit) =
    (do let new ← SingleDeposit.reader mode; return .singleDeposit new) :=
  Codec.body_eq (SingleDeposit.decodeInto_follows) fun _ => rfl

theorem reader_steady : Steady (codec.reader mode) := by
  refine Codec.reader_steady fun blank => ?_
  cases blank with
  | singleDeposit deposit =>
      rw [body_eq]
      exact SingleDeposit.reader_steady.bind fun _ => .pure _

/-- An empty object is of the variant whose number it was found under. -/
lemma tag_of_blank {number : UInt64} {output : Output} (h : blank number = .ok output) :
    output.tag = number := by
  unfold blank at h
  split at h
  · next hn => cases h; exact hn.symm
  · cases h

theorem reader_reads : Reads (codec.reader mode) (Form mode) := by
  refine Codec.reader_reads tag_of_blank ?_ ?_
  · intro output
    cases output with
    | singleDeposit deposit => exact ⟨.singleDeposit default, rfl⟩
  · intro blank
    cases blank with
    | singleDeposit deposit =>
        rw [body_eq]
        refine (SingleDeposit.reader_reads.map _).congr fun new bytes => ?_
        cases new with
        | singleDeposit new => simp [tag, Content]

/-- **Under validation an output has one form.** -/
theorem form_validated_iff {output : Output} {bytes : Bytes} :
    output.Form .validated bytes ↔ bytes = output.encode := by
  rw [Form, tagged_validated_iff]
  cases output with
  | singleDeposit deposit =>
      simp [tag, Content, SingleDeposit.Content, encode, SingleDeposit.encode,
        Address.form_validated_iff]

lemma encode_ne_nil (output : Output) : output.encode ≠ [] := by
  cases output with
  | singleDeposit deposit =>
      rw [encode, SingleDeposit.encode, List.append_assoc]
      exact List.append_ne_nil_of_left_ne_nil (Varint.encode_ne_nil _) _

end Output

end UtxoWire
