import UtxoWire.Address
import UtxoWire.Proofs.Codec

/-!
# Addresses

The reader of addresses, and the forms it takes: the discriminant followed by the key.

* `Address.reader_steady`, `Address.reader_reads` — how addresses are read.
* `Address.form_validated_iff` — under validation an address has one form, the one that is written.
-/

namespace UtxoWire

open Reader (Steady Reads)

namespace Ed25519Address

/-- The reader of Ed25519 addresses. -/
def reader (mode : Mode) : Reader Ed25519Address := do
  Reader.atLeast wireSize
  Reader.discriminant mode .address discriminant
  let key ← Reader.fixed 32
  return ⟨key⟩

variable {mode : Mode}

lemma decodeInto_follows (data : Bytes) :
    (decodeInto mode data).Follows (reader mode) data 0 := by
  unfold decodeInto reader
  refine .atLeast fun _ => .discriminant fun length => ?_
  refine .fixed fun key => .done _ _ rfl fun _ => ?_
  rw [Nat.zero_add]
  rfl

lemma reader_steady : Steady (reader mode) :=
  (Steady.atLeast _).bind fun _ => Reader.discriminant_steady.bind fun _ =>
    (Steady.fixed _).bind fun _ => .pure _

lemma reader_reads :
    Reads (reader mode) fun a => Headed mode discriminant (· = a.key.bytes) := by
  have hkey : Reads (do let key ← Reader.fixed 32; return (⟨key⟩ : Ed25519Address))
      fun a bytes => bytes = a.key.bytes := by
    refine ((Reads.fixed _).map _).congr fun a bytes => ?_
    exact ⟨fun ⟨_, ha, h⟩ => ha ▸ h, fun h => ⟨a.key, rfl, h⟩⟩
  exact hkey.headed.atLeast_bind fun a bytes h =>
    h.length_lt (n := 32) fun _ hc => by simp [hc, a.key.length_eq]

end Ed25519Address

namespace Address

/-- The number of the variant of an address. -/
def tag : Address → UInt64
  | .ed25519 _ => Ed25519Address.discriminant

/-- What follows the discriminant of an address. -/
def Content : Address → Bytes → Prop
  | .ed25519 a => (· = a.key.bytes)

/-- The forms of an address. -/
def Form (mode : Mode) (a : Address) : Bytes → Prop :=
  Tagged mode a.tag a.Content

variable {mode : Mode}

lemma body_eq (a : Ed25519Address) : codec.body mode (.ed25519 a) =
    (do let new ← Ed25519Address.reader mode; return .ed25519 new) :=
  Codec.body_eq (Ed25519Address.decodeInto_follows) fun _ => rfl

theorem reader_steady : Steady (codec.reader mode) := by
  refine Codec.reader_steady fun blank => ?_
  cases blank with
  | ed25519 a =>
      rw [body_eq]
      exact Ed25519Address.reader_steady.bind fun _ => .pure _

/-- An empty object is of the variant whose number it was found under. -/
lemma tag_of_blank {number : UInt64} {a : Address} (h : blank number = .ok a) :
    a.tag = number := by
  unfold blank at h
  split at h
  · cases h
  · split at h
    · next hn => cases h; exact hn.symm
    · cases h

theorem reader_reads : Reads (codec.reader mode) (Form mode) := by
  refine Codec.reader_reads tag_of_blank ?_ ?_
  · intro a
    cases a with
    | ed25519 a => exact ⟨.ed25519 default, rfl⟩
  · intro blank
    cases blank with
    | ed25519 a =>
        rw [body_eq]
        refine (Ed25519Address.reader_reads.map _).congr fun b bytes => ?_
        cases b with
        | ed25519 b => simp [tag, Content]

/-- **Under validation an address has one form.** -/
theorem form_validated_iff {a : Address} {bytes : Bytes} :
    a.Form .validated bytes ↔ bytes = a.encode := by
  rw [Form, tagged_validated_iff]
  cases a with
  | ed25519 a => simp [tag, Content, encode, Ed25519Address.encode]

lemma encode_injective : Function.Injective Address.encode := by
  intro a b h
  obtain ⟨a⟩ := a
  obtain ⟨b⟩ := b
  have hkey : a.key = b.key := FixedBytes.eq_of_bytes_eq (List.append_cancel_left h)
  cases a
  exact congrArg (fun key => Address.ed25519 ⟨key⟩) hkey

end Address

end UtxoWire
