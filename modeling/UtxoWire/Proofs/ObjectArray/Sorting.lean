import Mathlib.Data.List.Nodup
import UtxoWire.ObjectArray.Sorting
import UtxoWire.Proofs.Outcome

/-!
# Sorting by wire form

What sorting makes of a list of objects.  It fails only where an object has no wire form; otherwise
the objects are put in ascending order of their wire forms.

* `ObjectArray.sortKey` — the bytes an object is sorted by.
* `ObjectArray.inOrder` — the objects in ascending order of these.
* **`ObjectArray.sort_eq_ok`** — sorting yields the objects in order, when all have wire forms.
* `ObjectArray.inOrder_eq_of_perm_of_mem` — the order of the objects before does not matter, if no
  two different ones have the same wire form.
-/

namespace UtxoWire.ObjectArray

variable {α : Type} {codec : Codec α} {objects objects' : List α}

/-- The bytes an object is sorted by: its wire form, which does not depend on validation. -/
def sortKey (codec : Codec α) (object : α) : Bytes :=
  (codec.encode .structural object).toOption.getD []

lemma sortKey_eq {object : α} {e : Bytes} (h : codec.encode .structural object = .ok e) :
    sortKey codec object = e := by
  simp [sortKey, h, Except.toOption]

/-- The first object may stand in front of the second. -/
def precedes (codec : Codec α) (a b : α) : Bool :=
  decide (sortKey codec a ≤ sortKey codec b)

lemma precedes_iff {a b : α} : precedes codec a b = true ↔ sortKey codec a ≤ sortKey codec b :=
  decide_eq_true_iff

/-- The objects in ascending order of their wire forms. -/
def inOrder (codec : Codec α) (objects : List α) : List α :=
  objects.mergeSort (precedes codec)

lemma mapM_withKey_eq_ok {keyed : List (Bytes × α)} :
    objects.mapM (withKey codec) = .ok keyed ↔
      (∀ a ∈ objects, ∃ e, codec.encode .structural a = .ok e) ∧
        keyed = objects.map fun a => (sortKey codec a, a) := by
  induction objects generalizing keyed with
  | nil => simp [eq_comm]
  | cons a objects ih =>
      simp only [List.mapM_cons, bind_eq_ok, ih, withKey, pure_eq_ok, Except.ok.injEq,
        List.forall_mem_cons, List.map_cons]
      constructor
      · rintro ⟨_, ⟨e, he, rfl⟩, _, ⟨hall, rfl⟩, rfl⟩
        exact ⟨⟨⟨e, he⟩, hall⟩, by rw [sortKey_eq he]⟩
      · rintro ⟨⟨⟨e, he⟩, hall⟩, rfl⟩
        exact ⟨_, ⟨e, he, rfl⟩, _, ⟨hall, rfl⟩, by rw [sortKey_eq he]⟩

/-- Pairs of a key and an object are sorted by the key alone, so that the objects come out as if
sorted themselves. -/
lemma map_snd_mergeSort (objects : List α) :
    ((objects.map fun a => (sortKey codec a, a)).mergeSort fun a b => decide (a.1 ≤ b.1)).map
      Prod.snd = inOrder codec objects := by
  have hkeys : ∀ a ∈ objects.map fun a => (sortKey codec a, a), a.1 = sortKey codec a.2 := by
    intro a ha
    obtain ⟨object, -, rfl⟩ := List.mem_map.mp ha
    rfl
  have hsort : ((objects.map fun a => (sortKey codec a, a)).mergeSort
      fun a b => decide (a.1 ≤ b.1)).map Prod.snd
        = ((objects.map fun a => (sortKey codec a, a)).map Prod.snd).mergeSort (precedes codec) := by
    refine List.map_mergeSort fun a ha b hb => ?_
    rw [precedes, hkeys a ha, hkeys b hb]
  rw [hsort, List.map_map, inOrder]
  exact congrArg (List.mergeSort · (precedes codec)) (List.map_id objects)

/-- **Sorting puts objects in the order of their wire forms**, when all of them have one. -/
theorem sort_eq_ok {sorted : List α} :
    sort codec objects = .ok sorted ↔
      (∀ a ∈ objects, ∃ e, codec.encode .structural a = .ok e) ∧
        sorted = inOrder codec objects := by
  simp only [sort, bind_eq_ok, mapM_withKey_eq_ok, pure_eq_ok, Except.ok.injEq]
  constructor
  · rintro ⟨_, ⟨hall, rfl⟩, rfl⟩
    exact ⟨hall, map_snd_mergeSort objects⟩
  · rintro ⟨hall, rfl⟩
    exact ⟨_, ⟨hall, rfl⟩, map_snd_mergeSort objects⟩

/-! ## The order -/

lemma inOrder_perm (objects : List α) : (inOrder codec objects).Perm objects :=
  List.mergeSort_perm _ _

lemma precedes_trans (a b c : α) (hab : precedes codec a b = true)
    (hbc : precedes codec b c = true) : precedes codec a c = true :=
  precedes_iff.mpr (List.le_trans (precedes_iff.mp hab) (precedes_iff.mp hbc))

lemma precedes_total (a b : α) : (precedes codec a b || precedes codec b a) = true := by
  rw [Bool.or_eq_true, precedes_iff, precedes_iff]
  exact List.le_total _ _

lemma inOrder_ascending (objects : List α) :
    (inOrder codec objects).Pairwise fun a b => sortKey codec a ≤ sortKey codec b :=
  (List.pairwise_mergeSort precedes_trans precedes_total objects).imp precedes_iff.mp

/-- Objects with different wire forms end up strictly in order. -/
lemma inOrder_strictly_ascending (h : (objects.map (sortKey codec)).Nodup) :
    ((inOrder codec objects).map (sortKey codec)).Pairwise (· < ·) := by
  have hnodup : ((inOrder codec objects).map (sortKey codec)).Nodup :=
    ((inOrder_perm objects).map _).nodup_iff.mpr h
  have hascending : ((inOrder codec objects).map (sortKey codec)).Pairwise (· ≤ ·) :=
    List.pairwise_map.mpr (inOrder_ascending objects)
  exact hascending.imp₂ (fun _ _ => Std.lt_of_le_of_ne) hnodup

/-- The order before does not matter, if different ones of the objects have different wire forms. -/
theorem inOrder_eq_of_perm_of_mem
    (hkey : ∀ a ∈ objects, ∀ b ∈ objects, sortKey codec a = sortKey codec b → a = b)
    (h : objects.Perm objects') : inOrder codec objects = inOrder codec objects' := by
  have hperm : (inOrder codec objects).Perm objects := inOrder_perm objects
  have hperm' : (inOrder codec objects').Perm objects := (inOrder_perm objects').trans h.symm
  refine List.Perm.eq_of_pairwise (fun a b ha hb hab hba => ?_) (inOrder_ascending objects)
    (inOrder_ascending objects') (hperm.trans hperm'.symm)
  exact hkey a (hperm.mem_iff.mp ha) b (hperm'.mem_iff.mp hb) (List.le_antisymm hab hba)

lemma inOrder_eq_of_perm (hkey : Function.Injective (sortKey codec))
    (h : objects.Perm objects') : inOrder codec objects = inOrder codec objects' :=
  inOrder_eq_of_perm_of_mem (fun _ _ _ _ hab => hkey hab) h

end UtxoWire.ObjectArray
