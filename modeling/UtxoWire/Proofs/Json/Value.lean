import Mathlib.Data.List.Forall2
import UtxoWire.Json.Value

/-!
# Trees

What can be said of JSON trees without their texts.

* `Json.Plain` — the trees that have a text to themselves: nothing in them is at fault, missing, or a
  number that is not whole.
* `Json.Plain.keepable` — a plain tree can be kept, if there is room for it.
* `Json.Reordered` — the same tree but for the order of the members of its objects, on any level.
* **`Json.reordered_sortKeys`** — to put keys in order is to reorder members and nothing else.
-/

namespace UtxoWire.Json

/-! ## Plain trees -/

/-- Trees that have a text to themselves, with at most `room` arrays and objects nested in one
another. -/
inductive Plain : (room : Nat) → Json → Prop
  | null {room : Nat} : Plain room .null
  | bool {room : Nat} (value : Bool) : Plain room (.bool value)
  | natural {room value : Nat} (fits : value < UInt64.size) : Plain room (.natural value)
  | text {room : Nat} (value : String) : Plain room (ofText value)
  | array {room : Nat} {items : List Json} (items_plain : ∀ item ∈ items, Plain room item) :
    Plain (room + 1) (.array items)
  | object {room : Nat} {members : List (Option String × Json)}
    (keys_given : ∀ member ∈ members, ∃ key, member.1 = some key)
    (values_plain : ∀ member ∈ members, Plain room member.2) : Plain (room + 1) (.object members)

namespace Plain

variable {room room' : Nat} {value : Json}

lemma mono (h : Plain room value) (hle : room ≤ room') : Plain room' value := by
  induction h generalizing room' with
  | null => exact .null
  | bool value => exact .bool value
  | natural hfits => exact .natural hfits
  | text value => exact .text value
  | array _ ih =>
      obtain ⟨room', rfl⟩ := Nat.exists_eq_add_of_le' (Nat.le_of_add_left_le hle)
      exact .array fun item hitem => ih item hitem (Nat.le_of_succ_le_succ hle)
  | object hkeys _ ih =>
      obtain ⟨room', rfl⟩ := Nat.exists_eq_add_of_le' (Nat.le_of_add_left_le hle)
      exact .object hkeys fun member hmember => ih member hmember (Nat.le_of_succ_le_succ hle)

lemma ofFields {fields : List (String × Json)} (h : ∀ field ∈ fields, Plain room field.2) :
    Plain (room + 1) (.ofFields fields) :=
  .object (List.forall_mem_map.mpr fun field _ => ⟨field.1, rfl⟩) (List.forall_mem_map.mpr h)

end Plain

lemma keepableItems_iff {room : Nat} {items : List Json} :
    keepableItems room items = true ↔ ∀ item ∈ items, item.keepable room = true := by
  induction items with
  | nil => simp [keepableItems]
  | cons item items ih => simp [keepableItems, ih]

lemma keepableMembers_iff {room : Nat} {members : List (Option String × Json)} :
    keepableMembers room members = true ↔
      ∀ member ∈ members, member.1.isSome = true ∧ member.2.keepable room = true := by
  induction members with
  | nil => simp [keepableMembers]
  | cons member members ih => simp [keepableMembers, ih]

/-- A plain tree can be kept where there is room for it. -/
lemma Plain.keepable {room : Nat} {value : Json} (h : Plain room value) :
    value.keepable room = true := by
  induction h with
  | array _ ih => simpa [Json.keepable, keepableItems_iff] using ih
  | object hkeys _ ih =>
      have hmembers := keepableMembers_iff.mpr fun member hmember =>
        ⟨Option.isSome_iff_exists.mpr (hkeys member hmember), ih member hmember⟩
      simpa [Json.keepable] using hmembers
  | _ => rfl

/-! ## The order of members -/

/-- The second tree is the first with the members of its objects in another order, on any level. -/
inductive Reordered : Json → Json → Prop
  | same (value : Json) : Reordered value value
  | array {items items' : List Json} (h : List.Forall₂ Reordered items items') :
    Reordered (.array items) (.array items')
  | object {members members' shuffled : List (Option String × Json)}
    (keys_eq : members.map Prod.fst = members'.map Prod.fst)
    (h : List.Forall₂ Reordered (members.map Prod.snd) (members'.map Prod.snd))
    (perm : members'.Perm shuffled) : Reordered (.object members) (.object shuffled)

namespace Reordered

variable {json : Json}

lemma array_iff {items : List Json} :
    Reordered (.array items) json ↔
      ∃ items', json = .array items' ∧ List.Forall₂ Reordered items items' := by
  constructor
  · intro h
    cases h with
    | same => exact ⟨items, rfl, List.forall₂_same.mpr fun item _ => .same item⟩
    | array h => exact ⟨_, rfl, h⟩
  · rintro ⟨items', rfl, h⟩
    exact .array h

lemma exists_of_forall₂ {items items' : List Json} (h : List.Forall₂ Reordered items items') :
    ∀ item' ∈ items', ∃ item ∈ items, Reordered item item' := by
  induction h with
  | nil => exact List.forall_mem_nil _
  | cons hitem _ ih =>
      refine List.forall_mem_cons.mpr ⟨⟨_, List.mem_cons_self, hitem⟩, fun item' hitem' => ?_⟩
      obtain ⟨item, hmem, hreordered⟩ := ih item' hitem'
      exact ⟨item, List.mem_cons_of_mem _ hmem, hreordered⟩

/-- A member is what a member of the first tree has become. -/
def FromMember (members : List (Option String × Json)) (member : Option String × Json) : Prop :=
  ∃ value, (member.1, value) ∈ members ∧ Reordered value member.2

lemma fromMember_of_forall₂ {members members' : List (Option String × Json)}
    (hkeys : members.map Prod.fst = members'.map Prod.fst)
    (h : List.Forall₂ Reordered (members.map Prod.snd) (members'.map Prod.snd)) :
    ∀ member ∈ members', FromMember members member := by
  induction members generalizing members' with
  | nil =>
      obtain rfl : members' = [] := List.map_eq_nil_iff.mp hkeys.symm
      exact List.forall_mem_nil _
  | cons first members ih =>
      obtain ⟨first', members', rfl, hfirst, hrest⟩ := List.map_eq_cons_iff.mp hkeys.symm
      rw [List.map_cons, List.map_cons, List.forall₂_cons] at h
      refine List.forall_mem_cons.mpr ⟨⟨first.2, ?_, h.1⟩, fun member hmember => ?_⟩
      · rw [hfirst]
        exact List.mem_cons_self
      · obtain ⟨value, hvalue, hreordered⟩ := ih hrest.symm h.2 member hmember
        exact ⟨value, List.mem_cons_of_mem _ hvalue, hreordered⟩

/-- What an object becomes: each of its members is there, once, in some place. -/
lemma object_cases {members : List (Option String × Json)} (h : Reordered (.object members) json) :
    ∃ shuffled, json = .object shuffled ∧
      (members.map Prod.fst).Perm (shuffled.map Prod.fst) ∧
      ∀ member ∈ shuffled, FromMember members member := by
  cases h with
  | same =>
      exact ⟨members, rfl, .refl _, fun member hmember => ⟨member.2, hmember, .same _⟩⟩
  | object hkeys h hperm =>
      refine ⟨_, rfl, hkeys ▸ hperm.map _, fun member hmember => ?_⟩
      exact fromMember_of_forall₂ hkeys h member (hperm.mem_iff.mpr hmember)

/-- A value without members or items stays what it is. -/
lemma eq_of_scalar {value : Json} (h : Reordered value json) (harray : ∀ items, value ≠ .array items)
    (hobject : ∀ members, value ≠ .object members) : json = value := by
  cases h with
  | same => rfl
  | array => exact absurd rfl (harray _)
  | object => exact absurd rfl (hobject _)

/-- To be plain is not a question of order. -/
lemma plain {room : Nat} {value : Json} (h : Reordered value json) (hplain : Plain room value) :
    Plain room json := by
  induction hplain generalizing json with
  | array _ ih =>
      obtain ⟨items', rfl, hitems⟩ := array_iff.mp h
      refine .array fun item' hitem' => ?_
      obtain ⟨item, hitem, hreordered⟩ := exists_of_forall₂ hitems item' hitem'
      exact ih item hitem hreordered
  | object hkeys _ ih =>
      obtain ⟨shuffled, rfl, -, hfrom⟩ := object_cases h
      refine .object (fun member hmember => ?_) fun member hmember => ?_
      · obtain ⟨value, hvalue, -⟩ := hfrom member hmember
        exact hkeys (member.1, value) hvalue
      · obtain ⟨value, hvalue, hreordered⟩ := hfrom member hmember
        exact ih _ hvalue hreordered
  | null => exact h.eq_of_scalar nofun nofun ▸ .null
  | bool value => exact h.eq_of_scalar nofun nofun ▸ .bool value
  | natural hfits => exact h.eq_of_scalar nofun nofun ▸ .natural hfits
  | text value => exact h.eq_of_scalar nofun nofun ▸ .text value

end Reordered

/-- The members are the fields, in any order, each with its value reordered. -/
structure MembersOf (fields : List (String × Json)) (members : List (Option String × Json)) :
    Prop where
  keys_perm : (fields.map fun field => some field.1).Perm (members.map Prod.fst)
  member_of : ∀ member ∈ members, ∃ key value, member.1 = some key ∧ (key, value) ∈ fields ∧
    Reordered value member.2

/-- Two fields stand in one order or the other. -/
lemma MembersOf.pair {a b : String} {x y : Json} {members : List (Option String × Json)}
    (h : MembersOf [(a, x), (b, y)] members) (hne : a ≠ b) :
    ∃ x' y', Reordered x x' ∧ Reordered y y' ∧
      (members = [(some a, x'), (some b, y')] ∨ members = [(some b, y'), (some a, x')]) := by
  have hlen : members.length = 2 := by simpa using h.keys_perm.length_eq.symm
  obtain ⟨⟨_, x'⟩, ⟨_, y'⟩, rfl⟩ := List.length_eq_two.mp hlen
  obtain ⟨key, value, hkey, hfield, hvalue⟩ := h.member_of _ List.mem_cons_self
  obtain ⟨key', value', hkey', hfield', hvalue'⟩ :=
    h.member_of _ (List.mem_cons_of_mem _ List.mem_cons_self)
  obtain rfl := hkey
  obtain rfl := hkey'
  have hapart : [some key, some key'].Nodup := h.keys_perm.nodup_iff.mp (by simpa using hne)
  rw [List.mem_pair, Prod.mk.injEq, Prod.mk.injEq] at hfield hfield'
  rcases hfield with ⟨rfl, rfl⟩ | ⟨rfl, rfl⟩ <;> rcases hfield' with ⟨rfl, rfl⟩ | ⟨rfl, rfl⟩
  · simp at hapart
  · exact ⟨x', y', hvalue, hvalue', .inl rfl⟩
  · exact ⟨y', x', hvalue', hvalue, .inr rfl⟩
  · simp at hapart

/-- What an object with given fields becomes. -/
lemma Reordered.ofFields_cases {fields : List (String × Json)} {json : Json}
    (h : Reordered (.ofFields fields) json) :
    ∃ members, json = .object members ∧ MembersOf fields members := by
  obtain ⟨members, rfl, hperm, hfrom⟩ := object_cases h
  refine ⟨members, rfl, ?_, fun member hmember => ?_⟩
  · rwa [List.map_map] at hperm
  · obtain ⟨value, hvalue, hreordered⟩ := hfrom member hmember
    obtain ⟨⟨key, _⟩, hfield, heq⟩ := List.mem_map.mp hvalue
    obtain ⟨hkey, rfl⟩ := Prod.mk.inj heq
    exact ⟨key, _, hkey.symm, hfield, hreordered⟩

/-! ## Keys in order -/

lemma insertMember_perm (member : Option String × Json) (members : List (Option String × Json)) :
    (insertMember member members).Perm (member :: members) := by
  induction members with
  | nil => exact .refl _
  | cons other members ih =>
      rw [insertMember]
      split
      · exact (ih.cons other).trans (.swap member other members)
      · exact .refl _

/-- The members with the keys of each in order, but not yet in order themselves. -/
lemma sortKeysMembers_perm (members : List (Option String × Json)) :
    (members.map fun member => (member.1, member.2.sortKeys)).Perm (sortKeysMembers members) := by
  induction members with
  | nil => exact .refl _
  | cons member members ih =>
      exact (ih.cons _).trans (insertMember_perm _ _).symm

mutual

/-- **To put keys in order is to reorder members.** -/
theorem reordered_sortKeys : (value : Json) → Reordered value value.sortKeys
  | .array items => .array (reordered_sortKeysItems items)
  | .object members => by
      refine .object (by simp) ?_ (sortKeysMembers_perm members)
      simpa using reordered_sortKeysMembers members
  | .null | .bool _ | .natural _ | .number _ | .string _ | .fault => .same _

theorem reordered_sortKeysItems : (items : List Json) →
    List.Forall₂ Reordered items (sortKeysItems items)
  | [] => .nil
  | item :: items => .cons (reordered_sortKeys item) (reordered_sortKeysItems items)

theorem reordered_sortKeysMembers : (members : List (Option String × Json)) →
    List.Forall₂ (fun member value => Reordered member.2 value) members
      (members.map fun member => member.2.sortKeys)
  | [] => .nil
  | (_, value) :: members => .cons (reordered_sortKeys value) (reordered_sortKeysMembers members)

end

end UtxoWire.Json
