import UtxoWire.Proofs.ObjectArray.Sorting
import UtxoWire.Proofs.RoundTrip

/-!
# Sorting is stable

Different objects may have the same wire form: a transaction without a payload and one with an empty
payload do.  Sorting leaves such objects in the order they came in, so that what it makes of a list
is still determined.  Of the other families different objects have different wire forms, and what is
made of a list depends only on what is in it.

* `ObjectArray.sort_eq_error` — sorting fails with the failure of the first object without a wire
  form.
* **`ObjectArray.filter_inOrder`** — objects with the same wire form keep their order.
* `ObjectArray.sort_eq_of_perm` — when the order before does not matter.
* **`Family.sort_stable`** — all of this for every family.
-/

namespace UtxoWire

namespace ObjectArray

variable {α : Type} {codec : Codec α} {objects objects' sorted : List α}

/-! ## Failures -/

/-- A list of steps fails with the first of them that does. -/
lemma mapM_eq_error {β : Type} {step : α → Except WireError β} {e : WireError} :
    objects.mapM step = .error e ↔
      ∃ before a after, objects = before ++ a :: after ∧ (∀ b ∈ before, ∃ c, step b = .ok c) ∧
        step a = .error e := by
  induction objects with
  | nil => simp
  | cons a objects ih =>
      rw [List.mapM_cons, bind_eq_error]
      constructor
      · rintro (ha | ⟨c, ha, hrest⟩)
        · exact ⟨[], a, objects, rfl, List.forall_mem_nil _, ha⟩
        · rcases bind_eq_error.mp hrest with hrest | ⟨_, -, hnone⟩
          · obtain ⟨before, b, after, rfl, hbefore, hb⟩ := ih.mp hrest
            exact ⟨a :: before, b, after, rfl, List.forall_mem_cons.mpr ⟨⟨c, ha⟩, hbefore⟩, hb⟩
          · cases hnone
      · rintro ⟨_ | ⟨_, before⟩, b, after, hsplit, hbefore, hb⟩
        · cases hsplit
          exact .inl hb
        · cases hsplit
          obtain ⟨⟨c, ha⟩, hbefore⟩ := List.forall_mem_cons.mp hbefore
          have hrest := ih.mpr ⟨before, b, after, rfl, hbefore, hb⟩
          exact .inr ⟨c, ha, bind_eq_error.mpr (.inl hrest)⟩

lemma withKey_eq_map (a : α) :
    withKey codec a = (codec.encode .structural a).map fun key => (key, a) := rfl

/-- Sorting fails with the failure of the first object that has no wire form. -/
theorem sort_eq_error {e : WireError} :
    sort codec objects = .error e ↔
      ∃ before a after, objects = before ++ a :: after ∧
        (∀ b ∈ before, ∃ bytes, codec.encode .structural b = .ok bytes) ∧
        codec.encode .structural a = .error e := by
  simp [sort, bind_eq_error, mapM_eq_error, withKey_eq_map, map_eq_ok, map_eq_error]

lemma exists_sort_iff : (∃ sorted, sort codec objects = .ok sorted) ↔
    ∀ a ∈ objects, ∃ bytes, codec.encode .structural a = .ok bytes := by
  simp [sort_eq_ok]

/-! ## Stability -/

/-- The object has these bytes as its wire form. -/
def hasForm (codec : Codec α) (bytes : Bytes) (a : α) : Bool :=
  decide (codec.encode .structural a = .ok bytes)

lemma sortKey_of_hasForm {bytes : Bytes} {a : α} (h : hasForm codec bytes a = true) :
    sortKey codec a = bytes :=
  sortKey_eq (of_decide_eq_true h)

/-- **Objects with the same wire form keep their order.** -/
theorem filter_inOrder (objects : List α) (bytes : Bytes) :
    (inOrder codec objects).filter (hasForm codec bytes)
      = objects.filter (hasForm codec bytes) := by
  have hsame : (objects.filter (hasForm codec bytes)).Pairwise
      fun a b => precedes codec a b = true := by
    refine List.pairwise_of_forall_mem_list fun a ha b hb => precedes_iff.mpr ?_
    rw [sortKey_of_hasForm (List.mem_filter.mp ha).2, sortKey_of_hasForm (List.mem_filter.mp hb).2]
    exact List.le_refl _
  -- they are in order already, and sorting takes nothing in order apart
  have hkept : (objects.filter (hasForm codec bytes)).Sublist (inOrder codec objects) :=
    List.sublist_mergeSort precedes_trans precedes_total hsame List.filter_sublist
  have hfilter : (objects.filter (hasForm codec bytes)).Sublist
      ((inOrder codec objects).filter (hasForm codec bytes)) := by
    simpa using hkept.filter (hasForm codec bytes)
  have hperm : ((inOrder codec objects).filter (hasForm codec bytes)).Perm
      (objects.filter (hasForm codec bytes)) :=
    (inOrder_perm objects).filter _
  exact (hfilter.eq_of_length hperm.length_eq.symm).symm

/-- What is in order stays as it is. -/
lemma inOrder_inOrder (objects : List α) :
    inOrder codec (inOrder codec objects) = inOrder codec objects :=
  List.mergeSort_of_pairwise ((inOrder_ascending objects).imp precedes_iff.mpr)

lemma sort_of_sorted (h : sort codec objects = .ok sorted) : sort codec sorted = .ok sorted := by
  obtain ⟨hall, rfl⟩ := sort_eq_ok.mp h
  exact sort_eq_ok.mpr ⟨fun a ha => hall a ((inOrder_perm objects).mem_iff.mp ha),
    (inOrder_inOrder objects).symm⟩

/-- The wire forms of sorted objects ascend. -/
lemma exists_forms_of_sort (h : sort codec objects = .ok sorted) :
    ∃ es, List.Forall₂ (fun a e => codec.encode .structural a = .ok e) sorted es ∧
      es.Pairwise (· ≤ ·) := by
  obtain ⟨hall, rfl⟩ := sort_eq_ok.mp h
  refine ⟨(inOrder codec objects).map (sortKey codec), ?_,
    List.pairwise_map.mpr (inOrder_ascending objects)⟩
  rw [List.forall₂_map_right_iff, List.forall₂_same]
  intro a ha
  obtain ⟨e, he⟩ := hall a ((inOrder_perm objects).mem_iff.mp ha)
  rw [sortKey_eq he, he]

/-- The order before does not matter where different objects have different wire forms and all
failures are the same. -/
theorem sort_eq_of_perm
    (hforms : ∀ a b bytes, codec.encode .structural a = .ok bytes →
      codec.encode .structural b = .ok bytes → a = b)
    {failure : WireError} (hfails : ∀ a e, codec.encode .structural a = .error e → e = failure)
    (h : objects.Perm objects') : sort codec objects = sort codec objects' := by
  have hall : (∀ a ∈ objects, ∃ e, codec.encode .structural a = .ok e) ↔
      ∀ a ∈ objects', ∃ e, codec.encode .structural a = .ok e :=
    forall_congr' fun a => by rw [h.mem_iff]
  have hfailure : ∀ list e, sort codec list = .error e → e = failure := by
    intro list e he
    obtain ⟨-, a, -, -, -, ha⟩ := sort_eq_error.mp he
    exact hfails a e ha
  cases hsort : sort codec objects with
  | ok sorted =>
      obtain ⟨hobjects, rfl⟩ := sort_eq_ok.mp hsort
      refine (sort_eq_ok.mpr ⟨hall.mp hobjects, inOrder_eq_of_perm_of_mem ?_ h⟩).symm
      intro a ha b hb hkey
      obtain ⟨s, hs⟩ := hobjects a ha
      obtain ⟨t, ht⟩ := hobjects b hb
      rw [sortKey_eq hs, sortKey_eq ht] at hkey
      exact hforms a b t (hkey ▸ hs) ht
  | error e =>
      cases hsort' : sort codec objects' with
      | ok sorted' =>
          obtain ⟨sorted, hsorted⟩ := exists_sort_iff.mpr (hall.mpr (sort_eq_ok.mp hsort').1)
          rw [hsort] at hsorted
          cases hsorted
      | error e' => rw [hfailure _ _ hsort, hfailure _ _ hsort']

end ObjectArray

/-! ## All families -/

namespace Family

variable {params : ProtocolParameters} {family : Family}

/-- But for transactions different objects have different wire forms. -/
lemma eq_of_encode (hfamily : family ≠ .transaction) {x y : family.Object} {bytes : Bytes}
    (hx : (family.codec params).encode .structural x = .ok bytes)
    (hy : (family.codec params).encode .structural y = .ok bytes) : x = y :=
  (reader_reads params .structural family).unambiguous.eq_of_form
    (form_of_encode params family hfamily hx .structural)
    (form_of_encode params family hfamily hy .structural)

/-- But for transactions only a one-time signature has no wire form. -/
lemma unimplemented_of_encode (hfamily : family ≠ .transaction) {x : family.Object} {e : WireError}
    (h : (family.codec params).encode .structural x = .error e) :
    e = WotsSignature.unimplemented := by
  cases family with
  | transaction => exact absurd rfl hfamily
  | address | input | output => cases h
  | signature =>
      rcases x with ⟨⟨⟩⟩ | s
      · exact (Except.error.inj h).symm
      · cases h
  | unlockBlock =>
      rcases x with ⟨⟨⟨⟩⟩ | s⟩ | target
      · exact (Except.error.inj h).symm
      · cases h
      · cases h

/-- **Sorting is stable, by wire form.**  It fails exactly where an object has none, with the
failure of the first such object.  Otherwise the objects come out with ascending wire forms, those
with the same one in the order in which they came in, and sorting them again changes nothing.  Of
all families but transactions it does not matter in which order they came in. -/
theorem sort_stable (params : ProtocolParameters) (family : Family) (xs : List family.Object) :
    ((∃ sorted, ObjectArray.sort (family.codec params) xs = .ok sorted) ↔
      ∀ x ∈ xs, ∃ bytes, (family.codec params).encode .structural x = .ok bytes) ∧
    (∀ e, ObjectArray.sort (family.codec params) xs = .error e ↔
      ∃ before x after, xs = before ++ x :: after ∧
        (∀ y ∈ before, ∃ bytes, (family.codec params).encode .structural y = .ok bytes) ∧
        (family.codec params).encode .structural x = .error e) ∧
    (∀ sorted, ObjectArray.sort (family.codec params) xs = .ok sorted →
      sorted.Perm xs ∧
      (∃ es, List.Forall₂ (fun x e => (family.codec params).encode .structural x = .ok e)
          sorted es ∧
        es.Pairwise (· ≤ ·)) ∧
      (∀ bytes, sorted.filter (ObjectArray.hasForm (family.codec params) bytes)
        = xs.filter (ObjectArray.hasForm (family.codec params) bytes)) ∧
      ObjectArray.sort (family.codec params) sorted = .ok sorted) ∧
    (family ≠ .transaction → ∀ ys, ys.Perm xs →
      ObjectArray.sort (family.codec params) ys = ObjectArray.sort (family.codec params) xs) := by
  refine ⟨ObjectArray.exists_sort_iff, fun e => ObjectArray.sort_eq_error, fun sorted h => ?_,
    fun hfamily ys hys => ?_⟩
  · obtain ⟨-, rfl⟩ := ObjectArray.sort_eq_ok.mp h
    exact ⟨ObjectArray.inOrder_perm xs, ObjectArray.exists_forms_of_sort h,
      ObjectArray.filter_inOrder xs, ObjectArray.sort_of_sorted h⟩
  · exact ObjectArray.sort_eq_of_perm (fun _ _ _ => eq_of_encode hfamily)
      (fun _ _ => unimplemented_of_encode hfamily) hys

/-- An empty payload in front of none, which are written alike; references of which the lower target
comes second, as its low byte is the higher one; and a one-time signature. -/
theorem sort_stable_samples :
    let empty : Transaction := .unsigned { payload := some [] }
    let absent : Transaction := .unsigned {}
    let first : UnlockBlock := .reference ⟨256⟩
    let second : UnlockBlock := .reference ⟨1⟩
    (∃ sorted, ObjectArray.sort (codec {} .transaction) [empty, absent] = .ok sorted ∧
      sorted.Perm [empty, absent] ∧
      sorted.filter (ObjectArray.hasForm (codec {} .transaction) [0, 0, 0, 0]) = [empty, absent]) ∧
    ObjectArray.sort (codec {} .unlockBlock) [second, first]
      = ObjectArray.sort (codec {} .unlockBlock) [first, second] ∧
    ObjectArray.sort (codec {} .unlockBlock) [second, .signature ⟨.wots ⟨⟩⟩, first]
      = .error WotsSignature.unimplemented := by
  intro empty absent first second
  obtain ⟨hok, -, hsorted, -⟩ := sort_stable {} .transaction [empty, absent]
  obtain ⟨-, -, -, hperm⟩ := sort_stable {} .unlockBlock [first, second]
  obtain ⟨-, herror, -, -⟩ :=
    sort_stable {} .unlockBlock [second, .signature ⟨.wots ⟨⟩⟩, first]
  refine ⟨?_, hperm (by decide) [second, first] (.swap first second []),
    (herror _).mpr ⟨[second], _, [first], rfl, ?_, rfl⟩⟩
  · have hempty : (codec {} .transaction).encode .structural empty = .ok [0, 0, 0, 0] := by
      decide +kernel
    have habsent : (codec {} .transaction).encode .structural absent = .ok [0, 0, 0, 0] := by
      decide +kernel
    obtain ⟨sorted, h⟩ := hok.mpr
      (List.forall_mem_cons.mpr ⟨⟨_, hempty⟩, List.forall_mem_singleton.mpr ⟨_, habsent⟩⟩)
    obtain ⟨hsame, -, hkept, -⟩ := hsorted sorted h
    refine ⟨sorted, h, hsame, (hkept [0, 0, 0, 0]).trans (List.filter_eq_self.mpr ?_)⟩
    exact List.forall_mem_cons.mpr
      ⟨decide_eq_true hempty, List.forall_mem_singleton.mpr (decide_eq_true habsent)⟩
  · exact List.forall_mem_singleton.mpr ⟨_, rfl⟩

end Family

end UtxoWire
