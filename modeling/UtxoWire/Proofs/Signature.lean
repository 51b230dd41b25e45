import UtxoWire.Signature
import UtxoWire.Proofs.Codec

/-!
# Signatures

The reader of signatures, and the forms it takes.  One-time signatures have none.

* `Signature.reader_steady`, `Signature.reader_reads` — how signatures are read.
* `Signature.form_validated_iff` — under validation a signature has one form, the one that is
  written, if it has one at all.
-/

namespace UtxoWire

open Reader (Steady Reads)

namespace WotsSignature

/-- The reader of one-time signatures, which always fails. -/
def reader : Reader WotsSignature :=
  liftM (.error unimplemented : Except WireError WotsSignature)

lemma decodeInto_follows (mode : Mode) (data : Bytes) :
    (decodeInto mode data).Follows reader data 0 :=
  fun _ => rfl

lemma reader_reads : Reads reader fun _ _ => False := by
  intro data signature n
  constructor
  · intro h
    cases h
  · rintro ⟨-, h⟩
    exact h.elim

end WotsSignature

namespace Ed25519Signature

def reader (mode : Mode) : Reader Ed25519Signature := do
  Reader.atLeast wireSize
  Reader.discriminant mode .signature discriminant
  Reader.atLeast bodyLength
  let publicKey ← Reader.fixed 32
  let signature ← Reader.fixed 64
  return ⟨publicKey, signature⟩

variable {mode : Mode}

lemma decodeInto_follows (data : Bytes) :
    (decodeInto mode data).Follows (reader mode) data 0 := by
  unfold decodeInto reader
  refine .atLeast fun _ => .discriminant fun length => .atLeast fun hlen => ?_
  generalize data.drop length = body at hlen
  have h32 : 32 ≤ body.length := Nat.le_trans (by decide) hlen
  have h64 : 64 ≤ (body.drop 32).length := by
    rw [List.length_drop]
    exact Nat.le_sub_of_add_le' hlen
  let new : Ed25519Signature := ⟨⟨body.take 32, List.length_take_of_le h32⟩,
    ⟨(body.drop 32).take 64, List.length_take_of_le h64⟩⟩
  -- the check has left nothing that could fail between the two changes
  refine .done new bodyLength ?_ fun _ => ?_
  · rw [Reader.bind_of_ok (Reader.fixed_eq_ok h32), Reader.bind_of_ok (Reader.fixed_eq_ok h64)]
    rfl
  · rw [Update.apply_lift_bind (Bytes.first_eq_ok h32), Update.apply_modify_bind,
      Update.apply_lift_bind (Bytes.skip_eq_ok h32), Update.apply_lift_bind (Bytes.first_eq_ok h64),
      Update.apply_modify_bind, Nat.zero_add]
    rfl

lemma reader_steady : Steady (reader mode) :=
  (Steady.atLeast _).bind fun _ => Reader.discriminant_steady.bind fun _ =>
    (Steady.atLeast _).bind fun _ => (Steady.fixed _).bind fun _ =>
      (Steady.fixed _).bind fun _ => .pure _

/-- What follows the discriminant of a signature. -/
def content (signature : Ed25519Signature) : Bytes :=
  signature.publicKey.bytes ++ signature.signature.bytes

lemma length_content (signature : Ed25519Signature) : signature.content.length = bodyLength := by
  rw [content, List.length_append, signature.publicKey.length_eq, signature.signature.length_eq]
  rfl

lemma reader_reads :
    Reads (reader mode) fun signature => Headed mode discriminant (· = signature.content) := by
  have hcontent : Reads (do
        let publicKey ← Reader.fixed 32
        let signature ← Reader.fixed 64
        return (⟨publicKey, signature⟩ : Ed25519Signature))
      fun signature bytes => bytes = signature.content := by
    refine ((Reads.fixed _).bind fun _ => (Reads.fixed _).map _).congr fun signature bytes => ?_
    constructor
    · rintro ⟨publicKey, s, t, rfl, rfl, rest, rfl, rfl⟩
      rfl
    · rintro rfl
      exact ⟨signature.publicKey, _, _, rfl, rfl, signature.signature, rfl, rfl⟩
  have hlen : Reads (do
        Reader.atLeast bodyLength
        let publicKey ← Reader.fixed 32
        let signature ← Reader.fixed 64
        return (⟨publicKey, signature⟩ : Ed25519Signature))
      fun signature bytes => bytes = signature.content :=
    hcontent.atLeast_bind fun signature _ h => by simp [h, length_content]
  exact hlen.headed.atLeast_bind fun signature _ h =>
    h.length_lt (n := bodyLength) fun _ hc => by simp [hc, length_content]

end Ed25519Signature

namespace Signature

def tag : Signature → UInt64
  | .wots _ => WotsSignature.discriminant
  | .ed25519 _ => Ed25519Signature.discriminant

/-- What follows the discriminant of a signature; nothing does in a one-time signature. -/
def Content : Signature → Bytes → Prop
  | .wots _ => fun _ => False
  | .ed25519 signature => (· = signature.content)

def Form (mode : Mode) (signature : Signature) : Bytes → Prop :=
  Tagged mode signature.tag signature.Content

variable {mode : Mode}

lemma body_wots (signature : WotsSignature) : codec.body mode (.wots signature) =
    (do let new ← WotsSignature.reader; return .wots new) :=
  Codec.body_eq (WotsSignature.decodeInto_follows mode) fun _ => rfl

lemma body_ed25519 (signature : Ed25519Signature) : codec.body mode (.ed25519 signature) =
    (do let new ← Ed25519Signature.reader mode; return .ed25519 new) :=
  Codec.body_eq (Ed25519Signature.decodeInto_follows) fun _ => rfl

theorem reader_steady : Steady (codec.reader mode) := by
  refine Codec.reader_steady fun blank => ?_
  cases blank with
  | wots signature =>
      rw [body_wots]
      exact (Steady.lift _).bind fun _ => .pure _
  | ed25519 signature =>
      rw [body_ed25519]
      exact Ed25519Signature.reader_steady.bind fun _ => .pure _

/-- An empty object is of the variant whose number it was found under. -/
lemma tag_of_blank {number : UInt64} {signature : Signature} (h : blank number = .ok signature) :
    signature.tag = number := by
  unfold blank at h
  split at h
  · next hn => cases h; exact hn.symm
  · split at h
    · next hn => cases h; exact hn.symm
    · cases h

theorem reader_reads : Reads (codec.reader mode) (Form mode) := by
  refine Codec.reader_reads tag_of_blank ?_ ?_
  · intro signature
    cases signature with
    | wots signature => exact ⟨.wots default, rfl⟩
    | ed25519 signature => exact ⟨.ed25519 default, rfl⟩
  · intro blank
    cases blank with
    | wots signature =>
        rw [body_wots]
        refine (WotsSignature.reader_reads.map _).congr fun new bytes => ?_
        cases new with
        | wots new => simp [tag, Content, Headed]
        | ed25519 new => simp [tag, WotsSignature.discriminant, Ed25519Signature.discriminant]
    | ed25519 signature =>
        rw [body_ed25519]
        refine (Ed25519Signature.reader_reads.map _).congr fun new bytes => ?_
        cases new with
        | wots new => simp [tag, WotsSignature.discriminant, Ed25519Signature.discriminant]
        | ed25519 new => simp [tag, Content]

/-- **Under validation a signature has one form**, unless it has none. -/
theorem form_validated_iff {signature : Signature} {bytes : Bytes} :
    signature.Form .validated bytes ↔ signature.encode = .ok bytes := by
  rw [Form, tagged_validated_iff]
  cases signature with
  | wots signature => simp [Content, encode, WotsSignature.encode]
  | ed25519 signature =>
      simp [tag, Content, encode, Ed25519Signature.encode, Ed25519Signature.content, eq_comm]

lemma encode_injective {s t : Signature} {bytes : Bytes} (hs : s.encode = .ok bytes)
    (ht : t.encode = .ok bytes) : s = t := by
  cases s with
  | wots s => cases hs
  | ed25519 s =>
      cases t with
      | wots t => cases ht
      | ed25519 t =>
          obtain ⟨key, signature⟩ := s
          obtain ⟨key', signature'⟩ := t
          have h := Except.ok.inj (hs.trans ht.symm)
          obtain ⟨hkeys, hsignatures⟩ := List.append_inj' h
            (signature.length_eq.trans signature'.length_eq.symm)
          have hkey : key = key' := FixedBytes.eq_of_bytes_eq (List.append_cancel_left hkeys)
          have hsignature : signature = signature' := FixedBytes.eq_of_bytes_eq hsignatures
          rw [hkey, hsignature]

end Signature

end UtxoWire
