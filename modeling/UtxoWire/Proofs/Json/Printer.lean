import UtxoWire.Proofs.Json.Reader
import UtxoWire.Proofs.Json.Value

/-!
# What is written of a tree

Both layouts spell the tree, if it is plain, and so both are read as that tree.

* `Json.spellsItems_of_layout`, `Json.spellsMembers_of_layout` — any layout that puts commas between
  the items or members, and blanks behind the commas, spells them.
* `Json.Plain.spells_compact`, `Json.Plain.spells_pretty` — the texts spell the tree.
* **`Json.Plain.read_compactText`**, **`Json.Plain.read_prettyText`** — they are read as it.
-/

namespace UtxoWire.Json

variable {room : Nat} {value : Json}

/-! ## Layouts -/

lemma blanks_nil : Blanks [] :=
  List.forall_mem_nil _

lemma blanks_space : Blanks [' '] := by
  simp [Blanks, isBlank]

lemma blanks_newline (level : Nat) : Blanks (newline level) := by
  simp [Blanks, newline, isBlank]

lemma spellsItems_of_layout {write : Json → List Char} {layout : List Json → List Char}
    {blanks last : List Char} (hblanks : Blanks blanks) (hlast : Blanks last)
    (hnil : layout [] = last ++ [']'])
    (hcons : ∀ item items, layout (item :: items) = ',' :: (blanks ++ (write item ++ layout items)))
    {items : List Json} (h : ∀ item ∈ items, Spells item (write item)) :
    SpellsItems items (layout items) := by
  induction items with
  | nil =>
      rw [hnil]
      exact .close hlast
  | cons item items ih =>
      obtain ⟨hitem, hitems⟩ := List.forall_mem_cons.mp h
      rw [hcons]
      exact .next hblanks hitem (ih hitems)

lemma spellsMembers_of_layout {write : Json → List Char}
    {layout : List (Option String × Json) → List Char} {blanks space last : List Char}
    (hblanks : Blanks blanks) (hspace : Blanks space) (hlast : Blanks last)
    (hnil : layout [] = last ++ ['\x7d'])
    (hcons : ∀ key value members, layout ((some key, value) :: members) =
      ',' :: (blanks ++ (quote key ++ ':' :: (space ++ (write value ++ layout members)))))
    {members : List (Option String × Json)} (hkeys : ∀ member ∈ members, ∃ key, member.1 = some key)
    (h : ∀ member ∈ members, Spells member.2 (write member.2)) :
    SpellsMembers members (layout members) := by
  induction members with
  | nil =>
      rw [hnil]
      exact .close hlast
  | cons member members ih =>
      obtain ⟨⟨key, hkey⟩, hkeysRest⟩ := List.forall_mem_cons.mp hkeys
      obtain ⟨hmember, hmembers⟩ := List.forall_mem_cons.mp h
      obtain ⟨_, value⟩ := member
      obtain rfl := hkey
      rw [hcons]
      exact .next hblanks hspace hmember (ih hkeysRest hmembers)

/-! ## Both layouts -/

lemma spellsItems_compact {items : List Json} (h : ∀ item ∈ items, Spells item item.compact) :
    SpellsItems items (compactItems items) :=
  spellsItems_of_layout blanks_nil blanks_nil rfl (fun _ _ => rfl) h

lemma spellsMembers_compact {members : List (Option String × Json)}
    (hkeys : ∀ member ∈ members, ∃ key, member.1 = some key)
    (h : ∀ member ∈ members, Spells member.2 member.2.compact) :
    SpellsMembers members (compactMembers members) :=
  spellsMembers_of_layout blanks_nil blanks_nil blanks_nil rfl (fun _ _ _ => rfl) hkeys h

lemma spellsItems_pretty {level : Nat} {items : List Json}
    (h : ∀ item ∈ items, Spells item (item.pretty (level + 1))) :
    SpellsItems items (prettyItems level items) :=
  spellsItems_of_layout (blanks_newline (level + 1)) (blanks_newline level) rfl (fun _ _ => rfl) h

lemma spellsMembers_pretty {level : Nat} {members : List (Option String × Json)}
    (hkeys : ∀ member ∈ members, ∃ key, member.1 = some key)
    (h : ∀ member ∈ members, Spells member.2 (member.2.pretty (level + 1))) :
    SpellsMembers members (prettyMembers level members) :=
  spellsMembers_of_layout (blanks_newline (level + 1)) blanks_space (blanks_newline level) rfl
    (fun _ _ _ => rfl) hkeys h

lemma Plain.spells_compact (h : Plain room value) : Spells value value.compact := by
  induction h with
  | null => exact .null
  | bool value => exact .bool value
  | natural hfits => exact .natural hfits
  | text value => exact .text value
  | @array _ items _ ih =>
      cases items with
      | nil => exact .emptyArray
      | cons item items =>
          obtain ⟨hitem, hitems⟩ := List.forall_mem_cons.mp ih
          exact .array blanks_nil hitem (spellsItems_compact hitems)
  | @object _ members hkeys _ ih =>
      cases members with
      | nil => exact .emptyObject
      | cons member members =>
          obtain ⟨⟨key, hkey⟩, hkeysRest⟩ := List.forall_mem_cons.mp hkeys
          obtain ⟨hmember, hmembers⟩ := List.forall_mem_cons.mp ih
          obtain ⟨_, value⟩ := member
          obtain rfl := hkey
          exact .object blanks_nil blanks_nil hmember (spellsMembers_compact hkeysRest hmembers)

lemma Plain.spells_pretty (h : Plain room value) (level : Nat) :
    Spells value (value.pretty level) := by
  induction h generalizing level with
  | null => exact .null
  | bool value => exact .bool value
  | natural hfits => exact .natural hfits
  | text value => exact .text value
  | @array _ items _ ih =>
      cases items with
      | nil => exact .emptyArray
      | cons item items =>
          obtain ⟨hitem, hitems⟩ := List.forall_mem_cons.mp ih
          exact .array (blanks_newline _) (hitem _)
            (spellsItems_pretty fun item hmem => hitems item hmem _)
  | @object _ members hkeys _ ih =>
      cases members with
      | nil => exact .emptyObject
      | cons member members =>
          obtain ⟨⟨key, hkey⟩, hkeysRest⟩ := List.forall_mem_cons.mp hkeys
          obtain ⟨hmember, hmembers⟩ := List.forall_mem_cons.mp ih
          obtain ⟨_, value⟩ := member
          obtain rfl := hkey
          exact .object (blanks_newline _) blanks_space (hmember _)
            (spellsMembers_pretty hkeysRest fun member hmem => hmembers member hmem _)

/-! ## Reading back -/

/-- **The text without blanks is read as the tree.** -/
theorem Plain.read_compactText (h : Plain room value) : read value.compactText = ⟨value, true⟩ := by
  refine read_of_spells ?_
  rw [compactText, String.toList_ofList]
  exact h.spells_compact

/-- **The text with a line for each item and member is read as the tree.** -/
theorem Plain.read_prettyText (h : Plain room value) : read value.prettyText = ⟨value, true⟩ := by
  refine read_of_spells ?_
  rw [prettyText, String.toList_ofList]
  exact h.spells_pretty 0

end UtxoWire.Json
