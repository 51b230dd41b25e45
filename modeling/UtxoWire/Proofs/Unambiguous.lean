import UtxoWire.Proofs.Transaction.Signed

/-!
# Forms that are told apart

Bytes can be taken apart again if no form of one value is the beginning of a form of another.  This
holds of what is written for arrays of any length and for transactions, also for those that no bytes
are read as: what is written is not bounded, while what is read counts in 64 bits.

* `Unambiguous` — forms of which two can begin the same bytes only if they are the same form of the
  same value.
* `ObjectArray.unambiguous` — arrays of any length of such elements are of this kind, too.
* `UnsignedTransaction.content_unambiguous`, `SignedTransaction.content_unambiguous` — so is what is
  written for a transaction, but for an empty payload.
-/

namespace UtxoWire

variable {α : Type}

/-! ## Unambiguous forms -/

/-- Two forms that begin the same bytes are forms of the same value, with the same rest after
them. -/
structure Unambiguous (form : α → Bytes → Prop) : Prop where
  eq_of_append : ∀ {a b s t u v}, form a s → form b t → s ++ u = t ++ v → a = b ∧ u = v

namespace Unambiguous

variable {form : α → Bytes → Prop}

lemma mono {form' : α → Bytes → Prop} (h : Unambiguous form)
    (hform : ∀ a bytes, form' a bytes → form a bytes) : Unambiguous form' where
  eq_of_append ha hb heq := h.eq_of_append (hform _ _ ha) (hform _ _ hb) heq

lemma eq_of_form (h : Unambiguous form) {a b : α} {bytes : Bytes} (ha : form a bytes)
    (hb : form b bytes) : a = b :=
  (h.eq_of_append ha hb (rfl : bytes ++ [] = bytes ++ [])).1

end Unambiguous

/-- What a reader takes is unambiguous. -/
lemma Reader.Reads.unambiguous {reader : Reader α} {form : α → Bytes → Prop}
    (hr : Reader.Reads reader form) : Unambiguous form where
  eq_of_append {a b s t u v} ha hb h := by
    have hread := hr.apply_append ha u
    rw [h, hr.apply_append hb v, Except.ok.injEq, Prod.mk.injEq] at hread
    exact ⟨hread.1.symm, (List.append_inj h hread.2.symm).2⟩

/-- Numbers of any size are unambiguous: the last byte is the only one without the high bit. -/
lemma Varint.spells_unambiguous : Unambiguous fun n bytes => Varint.Spells bytes n := by
  constructor
  intro n m s t u v hs ht h
  induction hs generalizing m t with
  | @last b hb =>
      cases ht with
      | last hc =>
          obtain ⟨rfl, rfl⟩ := List.cons.inj h
          exact ⟨rfl, rfl⟩
      | more hc _ =>
          obtain ⟨rfl, -⟩ := List.cons.inj h
          exact absurd hb hc
  | @more b rest n hb hrest ih =>
      cases ht with
      | last hc =>
          obtain ⟨rfl, -⟩ := List.cons.inj h
          exact absurd hc hb
      | more hc hrest' =>
          obtain ⟨rfl, htail⟩ := List.cons.inj h
          obtain ⟨rfl, rfl⟩ := ih hrest' htail
          exact ⟨rfl, rfl⟩

/-! ## Arrays -/

/-- As many elements in turn are unambiguous if each is. -/
lemma forall₂_unambiguous {form : α → Bytes → Prop} (hform : Unambiguous form) {xs ys : List α}
    {es fs : List Bytes} {u v : Bytes} (hlen : xs.length = ys.length)
    (hxs : List.Forall₂ form xs es) (hys : List.Forall₂ form ys fs)
    (h : es.flatten ++ u = fs.flatten ++ v) : xs = ys ∧ u = v := by
  induction hxs generalizing ys fs with
  | nil =>
      obtain rfl := List.eq_nil_of_length_eq_zero hlen.symm
      cases hys
      exact ⟨rfl, h⟩
  | @cons x e xs es hx _ ih =>
      cases hys with
      | nil => cases hlen
      | @cons y f ys fs hy hys =>
          simp only [List.flatten_cons, List.append_assoc] at h
          obtain ⟨rfl, h⟩ := hform.eq_of_append hx hy h
          obtain ⟨rfl, h⟩ := ih (Nat.succ.inj hlen) hys h
          exact ⟨rfl, h⟩

/-- Arrays are unambiguous if their elements are, however many there are. -/
theorem ObjectArray.unambiguous {form : α → Bytes → Prop} (hform : Unambiguous form) :
    Unambiguous fun (xs : List α) bytes => ∃ es, List.Forall₂ form xs es ∧
      bytes = Varint.encodeNat xs.length ++ es.flatten := by
  constructor
  rintro xs ys _ _ u v ⟨es, hes, rfl⟩ ⟨fs, hfs, rfl⟩ h
  simp only [List.append_assoc] at h
  obtain ⟨hlen, h⟩ :=
    Varint.spells_unambiguous.eq_of_append (Varint.spells_encodeNat _) (Varint.spells_encodeNat _) h
  exact forall₂_unambiguous hform hlen hes hfs h

/-- What is written for an array is unambiguous if what is written for its elements is. -/
lemma ObjectArray.written_unambiguous {f : α → Bytes}
    (hf : Unambiguous fun a bytes => bytes = f a) :
    Unambiguous fun xs bytes => bytes = ObjectArray.written f xs := by
  refine (ObjectArray.unambiguous hf).mono fun xs bytes h => ⟨xs.map f, ?_, h⟩
  clear h
  induction xs with
  | nil => exact .nil
  | cons x xs ih => exact .cons rfl ih

/-! ## Transactions -/

/-- What is written for a payload is unambiguous, but for one that is there and empty. -/
lemma UnsignedTransaction.payload_unambiguous :
    Unambiguous fun payload bytes => bytes = encodePayload payload ∧ payload ≠ some [] := by
  constructor
  rintro p q _ _ u v ⟨rfl, hp⟩ ⟨rfl, hq⟩ h
  simp only [encodePayload, List.append_assoc] at h
  obtain ⟨hlen, h⟩ :=
    Varint.spells_unambiguous.eq_of_append (Varint.spells_encodeNat _) (Varint.spells_encodeNat _) h
  obtain ⟨hbytes, rfl⟩ := List.append_inj h hlen
  refine ⟨?_, rfl⟩
  cases p with
  | none =>
      cases q with
      | none => rfl
      | some q => exact absurd (congrArg some hbytes.symm) hq
  | some p =>
      cases q with
      | none => exact absurd (congrArg some hbytes) hp
      | some q => exact congrArg some hbytes

/-- What is written for an unsigned transaction is unambiguous, but for an empty payload. -/
theorem UnsignedTransaction.content_unambiguous :
    Unambiguous fun (tx : UnsignedTransaction) bytes =>
      bytes = tx.content ∧ tx.payload ≠ some [] := by
  have hinput : Unambiguous fun (input : Input) bytes => bytes = input.encode :=
    Input.reader_reads.unambiguous.mono fun _ _ => Input.form_validated_iff.mpr
  have houtput : Unambiguous fun (output : Output) bytes => bytes = output.encode :=
    Output.reader_reads.unambiguous.mono fun _ _ => Output.form_validated_iff.mpr
  constructor
  rintro ⟨inputs, outputs, payload⟩ ⟨inputs', outputs', payload'⟩ _ _ u v ⟨rfl, hx⟩ ⟨rfl, hy⟩ h
  simp only [content, List.append_assoc] at h
  obtain ⟨rfl, houtputs⟩ := (ObjectArray.written_unambiguous hinput).eq_of_append rfl rfl h
  obtain ⟨rfl, hpayload⟩ := (ObjectArray.written_unambiguous houtput).eq_of_append rfl rfl houtputs
  obtain ⟨rfl, hrest⟩ := payload_unambiguous.eq_of_append ⟨rfl, hx⟩ ⟨rfl, hy⟩ hpayload
  exact ⟨rfl, hrest⟩

lemma SignedTransaction.blocks_unambiguous : Unambiguous WritesBlocks := by
  have hblock : Unambiguous fun (block : UnlockBlock) bytes => block.encode = .ok bytes :=
    UnlockBlock.reader_reads.unambiguous.mono fun _ _ => UnlockBlock.form_validated_iff.mpr
  exact ObjectArray.unambiguous hblock

/-- What is written for a signed transaction is unambiguous, but for an empty payload. -/
theorem SignedTransaction.content_unambiguous :
    Unambiguous fun (tx : SignedTransaction) bytes =>
      (∃ b, WritesBlocks tx.unlockBlocks b ∧ bytes = tx.transaction.content ++ b) ∧
        tx.transaction.payload ≠ some [] := by
  constructor
  rintro ⟨transaction, blocks⟩ ⟨transaction', blocks'⟩ _ _ u v ⟨⟨b, hb, rfl⟩, hx⟩
    ⟨⟨c, hc, rfl⟩, hy⟩ h
  simp only [List.append_assoc] at h
  obtain ⟨rfl, hrest⟩ :=
    UnsignedTransaction.content_unambiguous.eq_of_append ⟨rfl, hx⟩ ⟨rfl, hy⟩ h
  obtain ⟨rfl, hend⟩ := blocks_unambiguous.eq_of_append hb hc hrest
  exact ⟨rfl, hend⟩

end UtxoWire
