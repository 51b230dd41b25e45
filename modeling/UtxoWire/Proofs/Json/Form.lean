import Mathlib.Data.List.Nodup
import UtxoWire.Json.Form
import UtxoWire.Proofs.Json.Printer

/-!
# Descriptions that lose nothing

A value is read back from its description, whatever order the members of the objects in it have been
put into.  This holds of scalars, and it passes on to lists, records and tagged values.  In a tagged
value the content may come before the name of the variant; it is then kept, and so there has to be
room for it.

* `ReadsAs` — a reader makes this value of a tree and of all its reorderings.
* `Lossless` — the types whose values are read back from their descriptions.
* `readMembers_of_fields`, **`readRecord_readsAs`** — records, with their members in any order.
* **`readTagged_readsAs`** — tagged values, in both orders.
* **`Lossless.parse_of_reordered`** — any text of a reordered description is read as the value.
-/

namespace UtxoWire

open JsonForm
open Json (Plain Reordered MembersOf)

variable {α : Type}

/-- The reader makes this value of the tree and of all its reorderings, where there is room for
`depth` arrays and objects in one another. -/
def ReadsAs (depth : Nat) (reader : Place → Json → Except Misfit α) (description : Json)
    (value : α) : Prop :=
  ∀ json place, Reordered description json → depth ≤ place.room → reader place json = .ok value

/-- Values of the type are described by plain trees and read back from them. -/
class Lossless (α : Type) [JsonForm α] (depth : outParam Nat) : Prop where
  plain (value : α) : Plain depth (toJson value)
  readsAs (value : α) : ReadsAs depth ofJson (toJson value) value

lemma ReadsAs.mono {depth depth' : Nat} {reader : Place → Json → Except Misfit α} {json : Json}
    {value : α} (h : ReadsAs depth reader json value) (hle : depth ≤ depth') :
    ReadsAs depth' reader json value :=
  fun json place hjson hroom => h json place hjson (Nat.le_trans hle hroom)

lemma ReadsAs.map {β : Type} {depth : Nat} {reader : Place → Json → Except Misfit α} {json : Json}
    {value : α} (h : ReadsAs depth reader json value) (wrap : α → β) :
    ReadsAs depth (fun place json => (reader place json).map wrap) json (wrap value) := by
  intro json place hjson hroom
  dsimp only
  rw [h json place hjson hroom]
  rfl

/-- There may be more room than descriptions need. -/
lemma Lossless.weaken {depth depth' : Nat} [JsonForm α] (h : Lossless α depth)
    (hle : depth ≤ depth') : Lossless α depth' where
  plain value := (h.plain value).mono hle
  readsAs value := (h.readsAs value).mono hle

/-! ## Scalars -/

lemma readNatural_readsAs {limit number : Nat} (h : number < limit) (wrap : Nat → α) :
    ReadsAs 0 (fun _ json => (readNatural limit json).map wrap) (.natural number)
      (wrap number) := by
  intro json place hjson _
  obtain rfl := hjson.eq_of_scalar nofun nofun
  dsimp only
  rw [readNatural, if_pos h]
  rfl

/-- Digits are read as they were written: there are no marks to drop in front of them. -/
lemma readDigits_readsAs {decode : Bytes → Except Hex.Fault α} {bytes : Bytes} {value : α}
    (h : decode (utf8 (Hex.text bytes)) = .ok value) :
    ReadsAs 0 (fun _ json => do (decode (← readDigits json)).mapError .hex)
      (.ofText (Hex.text bytes)) value := by
  intro json place hjson _
  obtain rfl := hjson.eq_of_scalar nofun nofun
  dsimp only
  rw [Json.ofText, readDigits, Hex.stripMarks_text, ok_bind, h]
  rfl

instance : Lossless UInt64 0 where
  plain value := .natural value.toNat_lt
  readsAs value := by
    have hread := readNatural_readsAs value.toNat_lt UInt64.ofNat
    rwa [UInt64.ofNat_toNat] at hread

instance : Lossless UInt16 0 where
  plain value := .natural (Nat.lt_trans value.toNat_lt (by decide))
  readsAs value := by
    have hread := readNatural_readsAs value.toNat_lt UInt16.ofNat
    rwa [UInt16.ofNat_toNat] at hread

instance {n : Nat} : Lossless (FixedBytes n) 0 where
  plain _ := .text _
  readsAs field := readDigits_readsAs (Hex.decodeFixed_text field)

instance : Lossless Bytes 0 where
  plain _ := .text _
  readsAs bytes := readDigits_readsAs (Hex.decode_text bytes)

/-! ## Lists -/

lemma readItems_of_forall₂ {depth : Nat} [JsonForm α] [Lossless α depth] {values : List α}
    {items : List Json} (h : List.Forall₂ Reordered (values.map toJson) items) {place : Place}
    (hroom : depth ≤ place.room) : readItems place items = .ok values := by
  induction values generalizing items with
  | nil =>
      cases h
      rfl
  | cons value values ih =>
      obtain ⟨item, items, hitem, hitems, rfl⟩ := List.forall₂_cons_left_iff.mp h
      rw [readItems, Lossless.readsAs value item place hitem hroom, ok_bind, ih hitems, ok_bind]
      rfl

instance {depth : Nat} [JsonForm α] [Lossless α depth] : Lossless (List α) (depth + 1) where
  plain values := .array (List.forall_mem_map.mpr fun value _ => Lossless.plain value)
  readsAs values := by
    intro json place hjson hroom
    obtain ⟨items, rfl, hitems⟩ := Reordered.array_iff.mp hjson
    exact readItems_of_forall₂ hitems (Nat.le_sub_of_add_le hroom)

/-! ## Records -/

lemma forall_mem_two {β : Type} {p : β → Prop} {a b : β} (ha : p a) (hb : p b) :
    ∀ x ∈ [a, b], p x :=
  List.forall_mem_cons.mpr ⟨ha, List.forall_mem_singleton.mpr hb⟩

/-- A field that has not been given yet fills its slot.  What has been read is determined by the keys
that have been given. -/
def FillsSlot {σ : Type} (take : σ → String → Json → Except Misfit σ) (slots : List String → σ)
    (field : String × Json) : Prop :=
  ∀ given, field.1 ∉ given → ∀ json, Reordered field.2 json →
    take (slots given) field.1 json = .ok (slots (field.1 :: given))

lemma readMembers_of_forall {σ : Type} {take : σ → String → Json → Except Misfit σ}
    {slots : List String → σ} {fields : List (String × Json)}
    (hfills : ∀ field ∈ fields, FillsSlot take slots field)
    {members : List (Option String × Json)} {given : List String}
    (hnodup : (members.map Prod.fst).Nodup)
    (hmembers : ∀ member ∈ members, ∃ key value, member.1 = some key ∧ (key, value) ∈ fields ∧
      Reordered value member.2)
    (hnew : ∀ key ∈ given, some key ∉ members.map Prod.fst) :
    ∃ given', (∀ key, key ∈ given' ↔ key ∈ given ∨ some key ∈ members.map Prod.fst) ∧
      readMembers take (slots given) members = .ok (slots given') := by
  induction members generalizing given with
  | nil => exact ⟨given, by simp, rfl⟩
  | cons member members ih =>
      obtain ⟨⟨key, value, hkey, hfield, hvalue⟩, hrest⟩ := List.forall_mem_cons.mp hmembers
      obtain ⟨_, json⟩ := member
      obtain rfl := hkey
      rw [List.map_cons, List.nodup_cons] at hnodup
      have hkey : key ∉ given := fun hmem => hnew key hmem List.mem_cons_self
      have hnew' : ∀ other ∈ key :: given, some other ∉ members.map Prod.fst := by
        refine List.forall_mem_cons.mpr ⟨hnodup.1, fun other hmem hother => ?_⟩
        exact hnew other hmem (List.mem_cons_of_mem _ hother)
      obtain ⟨given', hgiven', hread⟩ := ih hnodup.2 hrest hnew'
      refine ⟨given', fun other => ?_, ?_⟩
      · rw [hgiven', List.mem_cons, List.map_cons, List.mem_cons, Option.some.injEq, or_left_comm,
          or_assoc]
      · rw [readMembers, hfills _ hfield given hkey json hvalue, ok_bind, hread]

/-- **The members of a record are read in any order.** -/
theorem readMembers_of_fields {σ : Type} {take : σ → String → Json → Except Misfit σ}
    {slots : List String → σ} {fields : List (String × Json)}
    (hfills : ∀ field ∈ fields, FillsSlot take slots field)
    (hnodup : (fields.map Prod.fst).Nodup) {members : List (Option String × Json)}
    (hmembers : MembersOf fields members) :
    ∃ given, (∀ key, key ∈ given ↔ key ∈ fields.map Prod.fst) ∧
      readMembers take (slots []) members = .ok (slots given) := by
  have hkeys : ((fields.map Prod.fst).map some).Perm (members.map Prod.fst) := by
    rw [List.map_map]
    exact hmembers.keys_perm
  have hmembersNodup : (members.map Prod.fst).Nodup :=
    hkeys.nodup_iff.mp (hnodup.map (Option.some_injective _))
  obtain ⟨given, hgiven, hread⟩ := readMembers_of_forall hfills hmembersNodup
    hmembers.member_of (List.forall_mem_nil _)
  refine ⟨given, fun key => ?_, hread⟩
  rw [hgiven, ← hkeys.mem_iff]
  simp

lemma readsAs_of_members {depth : Nat} {ofItems : Place → List Json → Except Misfit α}
    {ofMembers : Place → List (Option String × Json) → Except Misfit α}
    {fields : List (String × Json)} {value : α}
    (h : ∀ members place, MembersOf fields members → depth ≤ place.room →
      ofMembers place members = .ok value) :
    ReadsAs (depth + 1) (readRecord ofItems ofMembers) (.ofFields fields) value := by
  intro json place hjson hroom
  obtain ⟨members, rfl, hmembers⟩ := hjson.ofFields_cases
  exact h members place.inner hmembers (Nat.le_sub_of_add_le hroom)

/-- **A record is read back**, if each field fills its slot and the slots of all fields make up the
value. -/
theorem readRecord_readsAs {σ : Type} {depth : Nat}
    {ofItems : Place → List Json → Except Misfit α}
    {take : Place → σ → String → Json → Except Misfit σ} {start : σ}
    {finish : σ → Except Misfit α} {fields : List (String × Json)} {value : α}
    (slots : List String → σ) (hstart : slots [] = start)
    (hnodup : (fields.map Prod.fst).Nodup)
    (hfills : ∀ place, depth ≤ place.room → ∀ field ∈ fields, FillsSlot (take place) slots field)
    (hfinish : ∀ given, (∀ key, key ∈ given ↔ key ∈ fields.map Prod.fst) →
      finish (slots given) = .ok value) :
    ReadsAs (depth + 1)
      (readRecord ofItems fun place members => readMembers (take place) start members >>= finish)
      (.ofFields fields) value := by
  refine readsAs_of_members fun members place hmembers hroom => ?_
  obtain ⟨given, hgiven, hread⟩ :=
    readMembers_of_fields (hfills place hroom) hnodup hmembers
  rw [← hstart, hread, ok_bind, hfinish given hgiven]

/-- The slot of a field, once these keys have been given. -/
def filled (given : List String) (key : String) (value : α) : Option α :=
  if key ∈ given then some value else none

/-- The slot of a field is filled with the value of the field. -/
lemma fillsSlot {σ : Type} {depth : Nat} [JsonForm α] {take : σ → String → Json → Except Misfit σ}
    {slots : List String → σ} {key : String} {description : Json} {value : α} {place : Place}
    (slot : σ → Option α) (put : σ → Option α → σ)
    (htake : ∀ state json, take state key json
      = do return put state (← readSlot place (slot state) json))
    (hslot : ∀ given, slot (slots given) = filled given key value)
    (hput : ∀ given, put (slots given) (some value) = slots (key :: given))
    (hread : ReadsAs depth ofJson description value) (hroom : depth ≤ place.room) :
    FillsSlot take slots (key, description) := by
  intro given hkey json hjson
  have hfill : readSlot place (slot (slots given)) json = .ok (some value) := by
    rw [hslot, filled, if_neg hkey, readSlot, hread json place hjson hroom]
    rfl
  rw [htake, hfill, ok_bind, hput]
  rfl

/-! ## Tagged values -/

section Tagged

variable {τ : Type} {contentKey : String} {variants : Variants τ}
  {readContent : τ → Place → Json → Except Misfit α} {tag : String} {variant : τ} {content : Json}
  {value : α} {depth : Nat}

lemma takeTagged_tag (hlookup : variants.lookup tag = some variant) (place : Place) :
    takeTagged contentKey variants readContent place .start tagKey (.ofText tag)
      = .ok (.tag variant) := by
  rw [takeTagged, if_pos rfl, Json.ofText, readTag, hlookup]
  rfl

lemma takeTagged_content (hkey : contentKey ≠ tagKey)
    (hread : ReadsAs depth (readContent variant) content value) {json : Json}
    (hjson : Reordered content json) {place : Place} (hroom : depth ≤ place.room) :
    takeTagged contentKey variants readContent place (.tag variant) contentKey json
      = .ok (.done value) := by
  rw [takeTagged, if_neg hkey, if_pos rfl, hread json place hjson hroom]
  rfl

/-- Plain content can be kept. -/
lemma takeTagged_keep (hkey : contentKey ≠ tagKey) (hplain : Plain depth content) {json : Json}
    (hjson : Reordered content json) {place : Place} (hroom : depth ≤ place.room) :
    takeTagged contentKey variants readContent place .start contentKey json
      = .ok (.content json) := by
  have hkeep : json.keepable place.room = true := ((hjson.plain hplain).mono hroom).keepable
  rw [takeTagged, if_neg hkey, if_pos rfl, if_pos hkeep]

/-- Content that was kept is read as if the variant had been known. -/
lemma takeTagged_kept (hlookup : variants.lookup tag = some variant)
    (hread : ReadsAs depth (readContent variant) content value) {json : Json}
    (hjson : Reordered content json) {place : Place} (hroom : depth ≤ place.room) :
    takeTagged contentKey variants readContent place (.content json) tagKey (.ofText tag)
      = .ok (.done value) := by
  have hkept : readContent variant { place with kept := true } json = .ok value :=
    hread json _ hjson hroom
  rw [takeTagged, if_pos rfl, Json.ofText, readTag, hlookup]
  dsimp only [required]
  rw [ok_bind, hkept]
  rfl

lemma plain_taggedJson (hplain : Plain depth content) :
    Plain (depth + 1) (taggedJson contentKey tag content) :=
  .ofFields (forall_mem_two (.text tag) hplain)

/-- **A tagged value is read in both orders**, whether its variant or its content comes first. -/
theorem readTagged_readsAs (hkey : contentKey ≠ tagKey)
    (hlookup : variants.lookup tag = some variant) (hplain : Plain depth content)
    (hread : ReadsAs depth (readContent variant) content value) :
    ReadsAs (depth + 1) (readTagged contentKey variants readContent)
      (taggedJson contentKey tag content) value := by
  refine readsAs_of_members fun members place hmembers hroom => ?_
  obtain ⟨tagJson, json, htag, hjson, horder⟩ := hmembers.pair hkey.symm
  obtain rfl := htag.eq_of_scalar nofun nofun
  have hread' : readMembers (takeTagged contentKey variants readContent place) .start members
      = .ok (.done value) := by
    rcases horder with rfl | rfl
    · rw [readMembers, takeTagged_tag hlookup, ok_bind, readMembers,
        takeTagged_content hkey hread hjson hroom]
      rfl
    · rw [readMembers, takeTagged_keep hkey hplain hjson hroom, ok_bind, readMembers,
        takeTagged_kept hlookup hread hjson hroom]
      rfl
  rw [hread']
  rfl

end Tagged

/-! ## Texts -/

/-- **Any text of a reordered description is read as the value**, as long as descriptions are not
nested too deeply to be kept. -/
theorem Lossless.parse_of_reordered {depth : Nat} [JsonForm α] [Lossless α depth]
    (hdepth : depth ≤ Place.top.room) {value : α} {json : Json} {text : String}
    (hjson : Reordered (toJson value) json) (htext : Json.read text = ⟨json, true⟩) :
    (parse text : Except Misfit α) = .ok value := by
  have hread : ofJson Place.top json = .ok value := Lossless.readsAs value json _ hjson hdepth
  rw [parse, htext]
  dsimp only
  rw [hread]
  rfl

end UtxoWire
