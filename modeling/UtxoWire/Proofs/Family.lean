import UtxoWire.Family.Objects
import UtxoWire.Proofs.Transaction

/-!
# All families

What the families have in common, whichever is chosen when the program runs.

* `Family.Form` — the forms of the objects of a family.
* `Family.reader_steady`, `Family.reader_reads` — how they are read.
* **`Family.outcome_append`** — what follows an object has no bearing on how it is read.
* **`Family.encode_of_decode`** — under validation one value has exactly one form.
-/

namespace UtxoWire.Family

open Reader (Steady Reads)

variable (params : ProtocolParameters) (mode : Mode)

/-- The forms of the objects of a family. -/
def Form : (family : Family) → family.Object → Bytes → Prop
  | .address => Address.Form mode
  | .input => Input.Form mode
  | .output => Output.Form mode
  | .signature => Signature.Form mode
  | .unlockBlock => UnlockBlock.Form mode
  | .transaction => Transaction.Form params mode

theorem reader_steady (family : Family) : Steady ((family.codec params).reader mode) := by
  cases family with
  | address => exact Address.reader_steady
  | input => exact Input.reader_steady
  | output => exact Output.reader_steady
  | signature => exact Signature.reader_steady
  | unlockBlock => exact UnlockBlock.reader_steady
  | transaction => exact Transaction.reader_steady

theorem reader_reads (family : Family) :
    Reads ((family.codec params).reader mode) (Form params mode family) := by
  cases family with
  | address => exact Address.reader_reads
  | input => exact Input.reader_reads
  | output => exact Output.reader_reads
  | signature => exact Signature.reader_reads
  | unlockBlock => exact UnlockBlock.reader_reads
  | transaction => exact Transaction.reader_reads

/-! ## Appending bytes -/

/-- **What follows an object has no bearing on it.**  A success stays the same when bytes are
appended, and so does a failure that does not come of too few bytes, with all it says.  Hence an
object that is cut short is refused for want of bytes. -/
theorem outcome_append (family : Family) (data : Bytes) :
    (∀ x n, (family.codec params).decode mode data = .ok (x, n) →
      ∀ rest, (family.codec params).decode mode (data ++ rest) = .ok (x, n)) ∧
    (∀ e, (family.codec params).decode mode data = .error e → ¬ e.RunsOut →
      ∀ rest, (family.codec params).decode mode (data ++ rest) = .error e) ∧
    (∀ x n, (family.codec params).decode mode data = .ok (x, n) →
      n ≤ data.length ∧
        ∀ k < n, ∃ e, (family.codec params).decode mode (data.take k) = .error e ∧ e.RunsOut) := by
  have hsteady := reader_steady params mode family
  refine ⟨fun x n h rest => hsteady.ok_append h rest,
    fun e h hout rest => hsteady.error_append h hout rest, fun x n h => ⟨hsteady.le_length h, ?_⟩⟩
  intro k hk
  exact hsteady.take_runsOut h hk

/-- A reference unlock block, an unknown variant, and a reference unlock block cut short. -/
theorem outcome_append_unlockBlock :
    ((codec {} .unlockBlock).decode .validated [1, 5, 0] = .ok (.reference ⟨5⟩, 3) ∧
      (codec {} .unlockBlock).decode .validated ([1, 5, 0] ++ [9, 9])
        = .ok (.reference ⟨5⟩, 3)) ∧
    ((codec {} .unlockBlock).decode .validated [2]
        = .error (.unknownType .unlockBlock 2) ∧
      (codec {} .unlockBlock).decode .validated ([2] ++ [9, 9])
        = .error (.unknownType .unlockBlock 2)) ∧
    ∃ e, (codec {} .unlockBlock).decode .validated ([1, 5, 0].take 2) = .error e ∧ e.RunsOut := by
  have hblock : (codec {} .unlockBlock).decode .validated [1, 5, 0]
      = .ok (.reference ⟨5⟩, 3) := rfl
  have hunknown : (codec {} .unlockBlock).decode .validated [2]
      = .error (.unknownType .unlockBlock 2) := rfl
  have hroot : ¬ (WireError.unknownType .unlockBlock 2).RunsOut := by
    simp [WireError.RunsOut, WireError.rootCause]
  obtain ⟨hok, -, hcut⟩ := outcome_append {} .validated .unlockBlock [1, 5, 0]
  obtain ⟨-, herror, -⟩ := outcome_append {} .validated .unlockBlock [2]
  exact ⟨⟨hblock, hok _ _ hblock [9, 9]⟩, ⟨hunknown, herror _ hunknown hroot [9, 9]⟩,
    (hcut _ _ hblock).2 2 (by decide)⟩

/-! ## One form -/

variable {params} {mode}

/-- Under validation an object is read from what is written of it, in either mode. -/
lemma Form.encode {family : Family} {x : family.Object} {bytes : Bytes}
    (h : Form params .validated family x bytes) (mode : Mode) :
    (family.codec params).encode mode x = .ok bytes := by
  cases family with
  | address => exact congrArg _ (Address.form_validated_iff.mp h).symm
  | input => exact congrArg _ (Input.form_validated_iff.mp h).symm
  | output => exact congrArg _ (Output.form_validated_iff.mp h).symm
  | signature => exact Signature.form_validated_iff.mp h
  | unlockBlock => exact UnlockBlock.form_validated_iff.mp h
  | transaction =>
      obtain ⟨hwell, hencode⟩ := Transaction.Form.wellFormed h
      cases mode with
      | structural => exact hencode
      | validated => exact hwell.encode_validated hencode

/-- An array of objects is read from what is written of it, too. -/
lemma encode_of_decode_array {family : Family} {rules : Option ArrayRules} {data : Bytes}
    {xs : List family.Object} {n : Nat}
    (h : ObjectArray.decode (family.codec params) .validated rules data = .ok (xs, n)) :
    n ≤ data.length ∧
      ObjectArray.encode (family.codec params) .validated xs = .ok (data.take n) := by
  rw [ObjectArray.decode_eq (reader_steady params .validated family)] at h
  obtain ⟨hn, hform⟩ :=
    (ObjectArray.reader_reads (reader_reads params .validated family) rules _ _ _).mp h
  exact ⟨hn, hform.encode fun _ _ h => h.encode .validated⟩

/-- **Under validation one value has exactly one form.**  What an object or an array is read from is
what is written of it, under validation and without.  Hence no two byte strings are read as the same
value. -/
theorem encode_of_decode (params : ProtocolParameters) (family : Family) :
    (∀ data x n, (family.codec params).decode .validated data = .ok (x, n) →
      n ≤ data.length ∧ (family.codec params).encode .validated x = .ok (data.take n) ∧
        (family.codec params).encode .structural x = .ok (data.take n)) ∧
    (∀ rules data xs n,
      ObjectArray.decode (family.codec params) .validated rules data = .ok (xs, n) →
        n ≤ data.length ∧
          ObjectArray.encode (family.codec params) .validated xs = .ok (data.take n)) ∧
    (∀ data data' x, (family.codec params).decodeExact .validated data = .ok x →
      (family.codec params).decodeExact .validated data' = .ok x → data = data') ∧
    (∀ rules rules' data data' xs,
      ObjectArray.decode (family.codec params) .validated rules data = .ok (xs, data.length) →
        ObjectArray.decode (family.codec params) .validated rules' data' = .ok (xs, data'.length) →
          data = data') := by
  have hobject : ∀ data x n, (family.codec params).decode .validated data = .ok (x, n) →
      n ≤ data.length ∧ ∀ mode, (family.codec params).encode mode x = .ok (data.take n) := by
    intro data x n h
    obtain ⟨hn, hform⟩ := (reader_reads params .validated family data x n).mp h
    exact ⟨hn, hform.encode⟩
  have hexact : ∀ data x, (family.codec params).decodeExact .validated data = .ok x →
      (family.codec params).encode .validated x = .ok data := by
    intro data x h
    have hencode := (hobject data x _ (Codec.decodeExact_eq_ok.mp h)).2 .validated
    rwa [List.take_length] at hencode
  refine ⟨fun data x n h => ?_, fun rules data xs n h => encode_of_decode_array h,
    fun data data' x h h' => ?_, fun rules rules' data data' xs h h' => ?_⟩
  · obtain ⟨hn, hencode⟩ := hobject data x n h
    exact ⟨hn, hencode .validated, hencode .structural⟩
  · exact Except.ok.inj ((hexact data x h).symm.trans (hexact data' x h'))
  · have hwritten := (encode_of_decode_array h).2
    have hwritten' := (encode_of_decode_array h').2
    rw [List.take_length] at hwritten hwritten'
    exact Except.ok.inj (hwritten.symm.trans hwritten')

/-- A reference unlock block, on its own and in an array. -/
theorem encode_of_decode_unlockBlock :
    ((codec {} .unlockBlock).encode .validated (.reference ⟨5⟩) = .ok [1, 5, 0] ∧
      (codec {} .unlockBlock).encode .structural (.reference ⟨5⟩) = .ok [1, 5, 0]) ∧
    ObjectArray.encode (codec {} .unlockBlock) .validated [.reference ⟨5⟩] = .ok [1, 1, 5, 0] ∧
    (∀ data, (codec {} .unlockBlock).decodeExact .validated data = .ok (.reference ⟨5⟩) →
      data = [1, 5, 0]) ∧
    ∀ data, ObjectArray.decode (codec {} .unlockBlock) .validated none data
      = .ok ([.reference ⟨5⟩], data.length) → data = [1, 1, 5, 0] := by
  obtain ⟨hobject, harray, hexact, hexactArray⟩ := encode_of_decode {} .unlockBlock
  have hblock : (codec {} .unlockBlock).decode .validated [1, 5, 0, 9]
      = .ok (.reference ⟨5⟩, 3) := rfl
  have hblocks : ObjectArray.decode (codec {} .unlockBlock) .validated none [1, 1, 5, 0]
      = .ok ([.reference ⟨5⟩], 4) := rfl
  exact ⟨(hobject _ _ _ hblock).2, (harray _ _ _ _ hblocks).2,
    fun data h => hexact _ _ (.reference ⟨5⟩) h rfl,
    fun data h => hexactArray _ none _ _ _ h hblocks⟩

end UtxoWire.Family
