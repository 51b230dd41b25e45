import UtxoWire.Proofs.Family

/-!
# Writes that fail

An array is written behind what is there, element by element, and an element may turn out to have no
wire form.  Then the elements in front of it stay written, and so does the number of elements, which
promises more than there are.  No element is ever written in part, and what was there before is not
touched.

* `ObjectArray.WrittenRun` — the longest run of elements at the front that have wire forms.
* `ObjectArray.appendElements_apply_stop` — the elements in front of the first failure are written.
* **`ObjectArray.exists_append_apply`** — what a write leaves and how it ends, whatever was there.
* **`Family.append_writtenRun`** — what follows for arrays of every family.
-/

namespace UtxoWire

namespace ObjectArray

variable {α : Type} {codec : Codec α} {mode : Mode} {objects run after : List α}
  {es : List Bytes} {object : α}

/-! ## What can be written -/

/-- The longest run of objects at the front of a list that have wire forms, with these forms. -/
structure WrittenRun (codec : Codec α) (mode : Mode) (objects run : List α) (es : List Bytes) :
    Prop where
  front : run <+: objects
  forms : List.Forall₂ (fun object e => codec.encode mode object = .ok e) run es
  longest : ∀ run', run' <+: objects → (∀ object ∈ run', ∃ e, codec.encode mode object = .ok e) →
    run' <+: run

namespace WrittenRun

/-- All of the list, if every object has a wire form. -/
lemma all (hforms : List.Forall₂ (fun object e => codec.encode mode object = .ok e) objects es) :
    WrittenRun codec mode objects objects es :=
  ⟨List.prefix_rfl, hforms, fun _ hfront _ => hfront⟩

/-- The objects in front of one that has none. -/
lemma stop (hforms : List.Forall₂ (fun object e => codec.encode mode object = .ok e) run es)
    {cause : WireError} (hobject : codec.encode mode object = .error cause) :
    WrittenRun codec mode (run ++ object :: after) run es where
  front := List.prefix_append _ _
  forms := hforms
  longest := by
    intro run' hfront hrun'
    rcases List.prefix_or_prefix_of_prefix hfront (List.prefix_append run (object :: after))
      with hshort | ⟨_ | ⟨next, tail⟩, rfl⟩
    · exact hshort
    · simp
    · -- a longer run has the object that fails in it
      obtain ⟨rest, hrest⟩ := (List.prefix_append_right_inj run).mp hfront
      cases hrest
      obtain ⟨e, he⟩ := hrun' object (by simp)
      rw [hobject] at he
      cases he

end WrittenRun

/-- Either every object of a list has a wire form, or there is a first one that has none. -/
lemma forms_or_stop (codec : Codec α) (mode : Mode) (objects : List α) :
    (∃ es, List.Forall₂ (fun object e => codec.encode mode object = .ok e) objects es) ∨
      ∃ run object after es cause, objects = run ++ object :: after ∧
        List.Forall₂ (fun object e => codec.encode mode object = .ok e) run es ∧
        codec.encode mode object = .error cause := by
  induction objects with
  | nil => exact .inl ⟨[], .nil⟩
  | cons object objects ih =>
      cases hobject : codec.encode mode object with
      | error cause => exact .inr ⟨[], object, objects, [], cause, rfl, .nil, hobject⟩
      | ok e =>
          rcases ih with ⟨es, hes⟩ | ⟨run, object', after, es, cause, rfl, hes, hcause⟩
          · exact .inl ⟨e :: es, .cons hobject hes⟩
          · exact .inr ⟨object :: run, object', after, e :: es, cause, rfl, .cons hobject hes,
              hcause⟩

/-! ## What is written -/

/-- The elements in front of the first that has no wire form are written, and its failure is wrapped
with its name. -/
lemma appendElements_apply_stop
    (hforms : List.Forall₂ (fun object e => codec.encode mode object = .ok e) run es)
    {cause : WireError} (hobject : codec.encode mode object = .error cause) (buffer : Bytes) :
    (appendElements codec mode (run ++ object :: after)).apply buffer
      = (.error (.inEntity (codec.typeName object) cause), buffer ++ es.flatten) := by
  induction hforms generalizing buffer with
  | nil =>
      rw [List.nil_append, appendElements_cons_of_error hobject, List.flatten_nil, List.append_nil]
  | cons he _ ih =>
      rw [List.cons_append, appendElements_cons_of_ok he, ih, List.flatten_cons, List.append_assoc]

/-- How a write ends once it has written a run of its elements: well if that was all of them, and
otherwise with the failure of the next one, wrapped with its name. -/
structure EndsAfter (codec : Codec α) (mode : Mode) (objects run : List α)
    (outcome : Except WireError Unit) : Prop where
  ok_iff : outcome = .ok () ↔ run = objects
  error_iff : ∀ e, outcome = .error e ↔ ∃ object after cause, objects = run ++ object :: after ∧
    codec.encode mode object = .error cause ∧ e = .inEntity (codec.typeName object) cause

lemma endsAfter_all : EndsAfter codec mode objects objects (.ok ()) := by
  refine ⟨iff_of_true rfl rfl, fun e => iff_of_false nofun ?_⟩
  rintro ⟨object, after, -, h, -⟩
  simp at h

lemma endsAfter_stop {cause : WireError} (hobject : codec.encode mode object = .error cause) :
    EndsAfter codec mode (run ++ object :: after) run
      (.error (.inEntity (codec.typeName object) cause)) := by
  refine ⟨iff_of_false nofun (by simp), fun e => ?_⟩
  constructor
  · intro h
    exact ⟨object, after, cause, rfl, hobject, (Except.error.inj h).symm⟩
  · rintro ⟨object', after', cause', hsplit, hobject', rfl⟩
    cases List.append_cancel_left hsplit
    rw [hobject] at hobject'
    cases hobject'
    rfl

/-- **What a write leaves.**  Behind what was there stand the number of elements and the wire forms
of those in front of the first failure, and the write ends with that failure. -/
theorem exists_append_apply (codec : Codec α) (mode : Mode) (objects : List α) :
    ∃ run es outcome, WrittenRun codec mode objects run es ∧
      EndsAfter codec mode objects run outcome ∧
      ∀ buffer, (append codec mode objects).apply buffer
        = (outcome, buffer ++ (Varint.encodeNat objects.length ++ es.flatten)) := by
  rcases forms_or_stop codec mode objects
    with ⟨es, hes⟩ | ⟨run, object, after, es, cause, rfl, hes, hcause⟩
  · refine ⟨objects, es, .ok (), .all hes, endsAfter_all, fun buffer => ?_⟩
    rw [append, Update.apply_modify_bind, appendElements_apply.mpr ⟨es, hes, rfl⟩,
      List.append_assoc]
  · refine ⟨run, es, _, .stop hes hcause, endsAfter_stop hcause, fun buffer => ?_⟩
    rw [append, Update.apply_modify_bind, appendElements_apply_stop hes hcause, List.append_assoc]

/-- An array on its own is what is written behind nothing. -/
lemma encode_of_append_apply {outcome : Except WireError Unit} {bytes : Bytes}
    (h : (append codec mode objects).apply [] = (outcome, bytes)) :
    encode codec mode objects = outcome.map fun _ => bytes := by
  rw [encode, Update.fill, h]
  cases outcome <;> rfl

end ObjectArray

/-! ## All families -/

namespace Family

open ObjectArray (WrittenRun EndsAfter)

/-- **A failed write keeps what was there and adds whole elements only.**  Whatever stood there, it
is followed by the number of elements, in the shortest form, and the wire forms of the longest run
of elements at the front that have one.  The write succeeds if that run is all there is, and fails
otherwise with the failure of the next element, wrapped once with its name.  Written on its own the
array is what is added, with the same failure. -/
theorem append_writtenRun (params : ProtocolParameters) (family : Family) (mode : Mode)
    (xs : List family.Object) :
    ∃ run es outcome, WrittenRun (family.codec params) mode xs run es ∧
      (∀ p, (ObjectArray.append (family.codec params) mode xs).apply p
        = (outcome, p ++ (Varint.encodeNat xs.length ++ es.flatten))) ∧
      (Varint.Spells (Varint.encodeNat xs.length) xs.length ∧
        ∀ bytes, Varint.Spells bytes xs.length →
          (Varint.encodeNat xs.length).length ≤ bytes.length) ∧
      EndsAfter (family.codec params) mode xs run outcome ∧
      (∀ p bytes, ObjectArray.encode (family.codec params) mode xs = .ok bytes ↔
        (ObjectArray.append (family.codec params) mode xs).apply p = (.ok (), p ++ bytes)) ∧
      ∀ p e, ObjectArray.encode (family.codec params) mode xs = .error e ↔
        ((ObjectArray.append (family.codec params) mode xs).apply p).1 = .error e := by
  obtain ⟨run, es, outcome, hrun, hends, happly⟩ :=
    ObjectArray.exists_append_apply (family.codec params) mode xs
  have hencode := ObjectArray.encode_of_append_apply (happly [])
  refine ⟨run, es, outcome, hrun, happly,
    ⟨Varint.spells_encodeNat _, fun _ h => h.length_encodeNat_le⟩, hends,
    fun p bytes => ?_, fun p e => ?_⟩
  · rw [hencode, happly p]
    cases outcome <;> simp [Except.map]
  · rw [hencode, happly p]
    cases outcome <;> simp [Except.map]

/-- A one-time signature between two references, behind a byte that was there. -/
theorem append_writtenRun_oneTime :
    let first : UnlockBlock := .reference ⟨1⟩
    let oneTime : UnlockBlock := .signature ⟨.wots ⟨⟩⟩
    let last : UnlockBlock := .reference ⟨256⟩
    let failure := WireError.inEntity "SignatureUnlockBlock" WotsSignature.unimplemented
    WrittenRun (codec {} .unlockBlock) .validated [first, oneTime, last] [first] [[1, 1, 0]] ∧
      (ObjectArray.append (codec {} .unlockBlock) .validated [first, oneTime, last]).apply [7]
        = (.error failure, [7, 3, 1, 1, 0]) ∧
      ObjectArray.encode (codec {} .unlockBlock) .validated [first, oneTime, last]
        = .error failure := by
  intro first oneTime last failure
  obtain ⟨-, -, -, -, -, -, -, -, hencode⟩ :=
    append_writtenRun {} .unlockBlock .validated [first, oneTime, last]
  have hwrite : (ObjectArray.append (codec {} .unlockBlock) .validated
      [first, oneTime, last]).apply [7] = (.error failure, [7, 3, 1, 1, 0]) := by
    decide +kernel
  have hfirst : (codec {} .unlockBlock).encode .validated first = .ok [1, 1, 0] := by
    decide +kernel
  exact ⟨.stop (.cons hfirst .nil) rfl, hwrite,
    (hencode [7] failure).mpr (congrArg Prod.fst hwrite)⟩

end Family

end UtxoWire
