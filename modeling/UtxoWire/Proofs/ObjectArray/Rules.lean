import UtxoWire.Proofs.RoundTrip

/-!
# Arrays under rules

An array that was written is read back under rules exactly when the rules hold of it.  Otherwise the
first violation is named: the bounds come before the order, the lower bound before the upper, and
of the elements out of order the first.

* `FirstOutOfOrder` — the place in front of the first element that is not above the one before it.
* `ObjectArray.advanceAll` — what an order check says of all the elements of an array.
* `ObjectArray.elements_append` — elements that were written are read back, and refused only by the
  order check.
* **`Family.decode_array_of_encode`** — what becomes of an array that was written, under any rules.
-/

namespace UtxoWire

open Reader (Reads)

/-! ## Bounds -/

namespace ArrayRules

variable {rules : ArrayRules} {count : UInt64}

lemma checkBounds_of_lt_min (hmin : rules.min ≠ 0) (h : count < rules.min) :
    rules.checkBounds count
      = .error (.countOutOfBounds rules.name .min rules.min count) := by
  have hviolated : ¬ (rules.min = 0 ∨ rules.min ≤ count) :=
    not_or.mpr ⟨hmin, UInt64.not_le.mpr h⟩
  rw [checkBounds, require, if_neg hviolated, error_bind]

lemma checkBounds_of_max_lt (hmin : rules.min = 0 ∨ rules.min ≤ count) (hmax : rules.max ≠ 0)
    (h : rules.max < count) :
    rules.checkBounds count
      = .error (.countOutOfBounds rules.name .max rules.max count) := by
  have hviolated : ¬ (rules.max = 0 ∨ count ≤ rules.max) :=
    not_or.mpr ⟨hmax, UInt64.not_le.mpr h⟩
  rw [checkBounds, require, if_pos hmin, ok_bind, require, if_neg hviolated]

end ArrayRules

/-! ## Order -/

/-- Up to the element at `place` the elements ascend strictly, and the next one is not above it. -/
structure FirstOutOfOrder (elements : List Bytes) (place : Nat) : Prop where
  next_lt_length : place + 1 < elements.length
  not_lt : ¬ elements[place] < elements[place + 1]
  lt_before : ∀ i (_ : i < place), elements[i] < elements[i + 1]

namespace FirstOutOfOrder

variable {a b : Bytes} {es : List Bytes} {place : Nat}

lemma cons_cons_zero : FirstOutOfOrder (a :: b :: es) 0 ↔ ¬ a < b := by
  constructor
  · exact fun h => h.not_lt
  · intro h
    exact ⟨by simp, h, fun i hi => absurd hi (Nat.not_lt_zero i)⟩

lemma cons_cons_succ :
    FirstOutOfOrder (a :: b :: es) (place + 1) ↔ a < b ∧ FirstOutOfOrder (b :: es) place := by
  constructor
  · intro h
    refine ⟨h.lt_before 0 (Nat.succ_pos place), ?_, h.not_lt, fun i hi => ?_⟩
    · exact Nat.lt_of_succ_lt_succ h.next_lt_length
    · exact h.lt_before (i + 1) (Nat.succ_lt_succ hi)
  · rintro ⟨hab, h⟩
    refine ⟨Nat.succ_lt_succ h.next_lt_length, h.not_lt, fun i hi => ?_⟩
    cases i with
    | zero => exact hab
    | succ i => exact h.lt_before i (Nat.lt_of_succ_lt_succ hi)

/-- Elements that do not ascend strictly have a first one out of order. -/
lemma of_not_isChain (h : ¬ es.IsChain (· < ·)) : ∃ place, FirstOutOfOrder es place := by
  induction es with
  | nil => exact absurd .nil h
  | cons a es ih =>
      cases es with
      | nil => exact absurd (.singleton a) h
      | cons b es =>
          by_cases hab : a < b
          · obtain ⟨place, hplace⟩ := ih fun hchain => h (.cons_cons hab hchain)
            exact ⟨place + 1, cons_cons_succ.mpr ⟨hab, hplace⟩⟩
          · exact ⟨0, cons_cons_zero.mpr hab⟩

end FirstOutOfOrder

namespace ObjectArray

variable {α : Type} {codec : Codec α} {mode : Mode} {form : α → Bytes → Prop}

/-- Lets an order check look at the wire forms of elements in turn, the first of them at `index`. -/
def advanceAll (order : Option OrderCheck) (index : Nat) : List Bytes → Except WireError Unit
  | [] => .ok ()
  | element :: elements => do
    let order ← advance order index element
    advanceAll order (index + 1) elements

/-- The check accepts the elements exactly when they ascend. -/
lemma advanceAll_eq_ok {order : Option OrderCheck} {index : Nat} {elements : List Bytes} :
    advanceAll order index elements = .ok () ↔ Ascending order elements := by
  induction elements generalizing order index with
  | nil => exact iff_of_true rfl (ascending_nil order)
  | cons element elements ih =>
      rw [advanceAll, bind_eq_ok, ascending_cons]
      exact exists_congr fun order' => and_congr_right fun _ => ih

/-- From a remembered element on, the check refuses the first one out of order. -/
lemma advanceAll_remembering {name : String} {last : Bytes} {elements : List Bytes}
    {index place : Nat} (h : FirstOutOfOrder (last :: elements) place) :
    advanceAll (some ⟨name, some (index, last)⟩) (index + 1) elements
      = .error (.lexicalOrderViolation name (index + place) (index + place + 1)) := by
  -- the place is counted from the remembered element, which moves on with every one accepted
  induction elements generalizing last index place with
  | nil => exact absurd h.next_lt_length (by simp)
  | cons element elements ih =>
      cases place with
      | zero =>
          have hlt := FirstOutOfOrder.cons_cons_zero.mp h
          simp [advanceAll, advance, OrderCheck.check, hlt]
      | succ place =>
          obtain ⟨hlt, hrest⟩ := FirstOutOfOrder.cons_cons_succ.mp h
          have hplace : index + (place + 1) = index + 1 + place := by omega
          simp only [advanceAll, advance, OrderCheck.check, hlt, if_true, ok_bind]
          rw [ih hrest, hplace]

/-- A check that has seen nothing refuses the first element out of order. -/
lemma advanceAll_start {name : String} {elements : List Bytes} {place : Nat}
    (h : FirstOutOfOrder elements place) :
    advanceAll (some (OrderCheck.start name)) 0 elements
      = .error (.lexicalOrderViolation name place (place + 1)) := by
  cases elements with
  | nil => exact absurd h.next_lt_length (by simp)
  | cons first elements =>
      have hrest : advanceAll (some ⟨name, some (0, first)⟩) (0 + 1) elements
          = .error (.lexicalOrderViolation name (0 + place) (0 + place + 1)) :=
        advanceAll_remembering h
      rw [Nat.zero_add place] at hrest
      exact hrest

/-! ## Reading what was written -/

/-- **The elements are read from their forms, whatever follows.**  Only the order check may refuse
one of them. -/
lemma elements_append (hcodec : Reads (codec.reader mode) form) {objects : List α}
    {es : List Bytes} (hes : List.Forall₂ form objects es) (order : Option OrderCheck)
    (index : Nat) (rest : Bytes) :
    elements codec mode objects.length index order (es.flatten ++ rest)
      = (advanceAll order index es).map fun _ => (objects, es.flatten.length) := by
  induction hes generalizing order index with
  | nil => rfl
  | @cons object e objects es he hes ih =>
      have hread : Reader.withBytes (codec.reader mode) (e ++ (es.flatten ++ rest))
          = .ok ((object, e), e.length) :=
        hcodec.withBytes.apply_append (a := (object, e)) ⟨he, rfl⟩ _
      rw [List.flatten_cons, List.append_assoc, List.length_cons, elements,
        Reader.bind_of_ok hread, List.drop_left, Reader.bind_apply, Reader.lift_apply, advanceAll]
      cases advance order index e with
      | error e => rfl
      | ok order =>
          simp only [Except.map, ok_bind, List.drop_zero, Reader.bind_apply, ih]
          cases advanceAll order (index + 1) es with
          | error e => rfl
          | ok _ => simp [Reader.pure_apply]

/-- What becomes of an array that was written: its number of elements is held against the bounds and
its elements against the order, and what passes is read back. -/
lemma reader_written (hcodec : Reads (codec.reader mode) form) {objects : List α}
    {es : List Bytes} (hes : List.Forall₂ form objects es) (hfits : objects.length < 2 ^ 64)
    (rules : Option ArrayRules) (rest : Bytes) :
    reader codec mode rules (Varint.encodeNat objects.length ++ es.flatten ++ rest) = do
      rules.elim (.ok ()) fun rules => rules.checkBounds (UInt64.ofNat objects.length)
      advanceAll (rules.bind ArrayRules.orderCheck?) 0 es
      return (objects, (Varint.encodeNat objects.length ++ es.flatten).length) := by
  rw [List.append_assoc, reader_encodeNat_append rules hfits, elements_append hcodec hes]
  cases advanceAll (rules.bind ArrayRules.orderCheck?) 0 es with
  | error e => rfl
  | ok _ => simp [Except.map]

end ObjectArray

/-! ## All families but transactions -/

namespace Family

variable {params : ProtocolParameters} {family : Family}

/-- Only transactions are written in another way under validation. -/
lemma encode_eq_structural (hfamily : family ≠ .transaction) (mode : Mode) (x : family.Object) :
    (family.codec params).encode mode x = (family.codec params).encode .structural x := by
  cases family with
  | transaction => exact absurd rfl hfamily
  | address | input | output | signature | unlockBlock => rfl

/-- **Rules accept what was written exactly when they hold of it, and otherwise the first violation
is named.**  Let `es` be the wire forms of the elements.  Whatever follows the array, in any mode,
it is read back without rules, and under rules if its length is within the bounds and, where order
is asked for, the wire forms ascend strictly.  A bound that is violated is named whatever the
elements are, the lower one first.  An array within the bounds is refused for the first element that
is not above the one before it, and both are named. -/
theorem decode_array_of_encode (params : ProtocolParameters) (family : Family)
    (hfamily : family ≠ .transaction) (mode : Mode) (xs : List family.Object) (bytes : Bytes)
    (h : ObjectArray.encode (family.codec params) mode xs = .ok bytes) (hfits : xs.length < 2 ^ 64)
    (rest : Bytes) :
    ∃ es, List.Forall₂ (fun x e => (family.codec params).encode mode x = .ok e) xs es ∧
      ObjectArray.decode (family.codec params) mode none (bytes ++ rest)
        = .ok (xs, bytes.length) ∧
      ∀ rules : ArrayRules,
        (ObjectArray.decode (family.codec params) mode (some rules) (bytes ++ rest)
            = .ok (xs, bytes.length) ↔
          WithinBounds rules.min rules.max xs.length ∧
            (rules.lexicalOrder = true → es.Pairwise (· < ·))) ∧
        (rules.min ≠ 0 → xs.length < rules.min.toNat →
          ObjectArray.decode (family.codec params) mode (some rules) (bytes ++ rest)
            = .error (.countOutOfBounds rules.name .min rules.min (UInt64.ofNat xs.length))) ∧
        (rules.min = 0 ∨ rules.min.toNat ≤ xs.length → rules.max ≠ 0 →
          rules.max.toNat < xs.length →
          ObjectArray.decode (family.codec params) mode (some rules) (bytes ++ rest)
            = .error (.countOutOfBounds rules.name .max rules.max (UInt64.ofNat xs.length))) ∧
        (WithinBounds rules.min rules.max xs.length → rules.lexicalOrder = true →
          ¬ es.Pairwise (· < ·) →
          ∃ i, FirstOutOfOrder es i ∧
            ObjectArray.decode (family.codec params) mode (some rules) (bytes ++ rest)
              = .error (.lexicalOrderViolation rules.name i (i + 1))) := by
  obtain ⟨es, hes, rfl⟩ := ObjectArray.encode_eq_ok.mp h
  have hforms : List.Forall₂ (Form params mode family) xs es := by
    refine hes.imp fun x e he => form_of_encode params family hfamily ?_ mode
    rwa [← encode_eq_structural hfamily mode]
  have hdecode : ∀ rules, ObjectArray.decode (family.codec params) mode rules
      (Varint.encodeNat xs.length ++ es.flatten ++ rest) = _ := fun rules =>
    (ObjectArray.decode_eq (reader_steady params mode family) rules _).trans
      (ObjectArray.reader_written (reader_reads params mode family) hforms hfits rules rest)
  have hcount : (UInt64.ofNat xs.length).toNat = xs.length := UInt64.toNat_ofNat_of_lt' hfits
  simp only [hdecode]
  refine ⟨es, hes, ?_, fun rules => ⟨?_, ?_, ?_, ?_⟩⟩
  · have hascending : ObjectArray.Ascending ((none : Option ArrayRules).bind
        ArrayRules.orderCheck?) es := ObjectArray.ascending_start.mpr nofun
    rw [Option.elim_none, ok_bind, ObjectArray.advanceAll_eq_ok.mpr hascending, ok_bind,
      pure_eq_ok]
  · simp only [check_bind_eq_ok, Option.elim_some, ArrayRules.checkBounds_eq_ok, hcount,
      ObjectArray.advanceAll_eq_ok, ObjectArray.ascending_start, Option.some.injEq, forall_eq',
      pure_eq_ok, and_true]
  · intro hmin hlt
    have hlt' : UInt64.ofNat xs.length < rules.min := by
      rwa [UInt64.lt_iff_toNat_lt, hcount]
    rw [Option.elim_some, ArrayRules.checkBounds_of_lt_min hmin hlt', error_bind]
  · intro hmin hmax hlt
    have hmin' : rules.min = 0 ∨ rules.min ≤ UInt64.ofNat xs.length := by
      rwa [UInt64.le_iff_toNat_le, hcount]
    have hlt' : rules.max < UInt64.ofNat xs.length := by
      rwa [UInt64.lt_iff_toNat_lt, hcount]
    rw [Option.elim_some, ArrayRules.checkBounds_of_max_lt hmin' hmax hlt', error_bind]
  · intro hbounds horder hes'
    obtain ⟨i, hi⟩ := FirstOutOfOrder.of_not_isChain (mt List.isChain_iff_pairwise.mp hes')
    rw [← hcount] at hbounds
    refine ⟨i, hi, ?_⟩
    rw [Option.elim_some, ArrayRules.checkBounds_eq_ok.mpr hbounds, ok_bind, Option.bind_some,
      ArrayRules.orderCheck?, if_pos horder, ObjectArray.advanceAll_start hi, error_bind]

/-- Three reference unlock blocks, the last two of them out of order, and a byte that follows. -/
theorem decode_array_of_encode_references :
    let blocks : List UnlockBlock := [.reference ⟨1⟩, .reference ⟨3⟩, .reference ⟨2⟩]
    let decode := fun rules => ObjectArray.decode (codec {} .unlockBlock) .validated rules
      ([3, 1, 1, 0, 1, 3, 0, 1, 2, 0] ++ [9])
    decode none = .ok (blocks, 10) ∧
    decode (some ⟨"blocks", 1, 3, false⟩) = .ok (blocks, 10) ∧
    decode (some ⟨"blocks", 4, 2, true⟩) = .error (.countOutOfBounds "blocks" .min 4 3) ∧
    decode (some ⟨"blocks", 0, 2, true⟩) = .error (.countOutOfBounds "blocks" .max 2 3) ∧
    decode (some ⟨"blocks", 0, 0, true⟩) = .error (.lexicalOrderViolation "blocks" 1 2) := by
  intro blocks decode
  have hwritten : ObjectArray.encode (codec {} .unlockBlock) .validated blocks
      = .ok [3, 1, 1, 0, 1, 3, 0, 1, 2, 0] := by decide +kernel
  obtain ⟨es, hes, hnone, hrules⟩ :=
    decode_array_of_encode {} .unlockBlock (by decide) .validated blocks _ hwritten (by decide) [9]
  have hforms : List.Forall₂ (fun x e => (codec {} .unlockBlock).encode .validated x = .ok e)
      blocks [[1, 1, 0], [1, 3, 0], [1, 2, 0]] :=
    .cons (by decide +kernel) (.cons (by decide +kernel) (.cons (by decide +kernel) .nil))
  obtain rfl := List.right_unique_forall₂'
    (fun _ _ _ h h' => Except.ok.inj (h.symm.trans h')) hes hforms
  obtain ⟨haccepted, -, -, -⟩ := hrules ⟨"blocks", 1, 3, false⟩
  obtain ⟨-, hmin, -, -⟩ := hrules ⟨"blocks", 4, 2, true⟩
  obtain ⟨-, -, hmax, -⟩ := hrules ⟨"blocks", 0, 2, true⟩
  obtain ⟨-, -, -, horder⟩ := hrules ⟨"blocks", 0, 0, true⟩
  refine ⟨hnone, haccepted.mpr ⟨⟨.inr (by decide), .inr (by decide)⟩, nofun⟩,
    hmin (by decide) (by decide), hmax (.inl rfl) (by decide) (by decide), ?_⟩
  obtain ⟨i, hi, hviolated⟩ := horder ⟨.inl rfl, .inl rfl⟩ rfl (by decide)
  match i, hi with
  | 0, hi =>
      have hlt : ([1, 1, 0] : Bytes) < [1, 3, 0] := by decide
      exact absurd hlt hi.not_lt
  | 1, _ => exact hviolated
  | i + 2, hi => exact absurd hi.next_lt_length (by simp)

end Family

end UtxoWire
