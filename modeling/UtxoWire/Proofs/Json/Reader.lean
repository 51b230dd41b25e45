import UtxoWire.Proofs.Json.Text

/-!
# Reading what a text spells

A text spells a tree if it consists of what the tree consists of, with commas, colons and brackets,
and blanks in some of the places that allow for them.  Reading such a text gives the tree.

* `Json.Spells` — the relation, one rule for each kind of value; `Json.SpellsItems` and
  `Json.SpellsMembers` go on after the first item or member, up to the closing bracket.
* `Json.Reads` — with this much fuel, texts of half that length are read as what they spell.
* **`Json.reads`** — any fuel is enough for that.
* **`Json.read_of_spells`** — documents are read as what they spell.
-/

namespace UtxoWire.Json

/-- Nothing but blanks. -/
def Blanks (text : List Char) : Prop :=
  ∀ c ∈ text, isBlank c = true

mutual

/-- The text spells the value. -/
inductive Spells : Json → List Char → Prop
  | null : Spells .null nullText
  | bool (value : Bool) : Spells (.bool value) (boolText value)
  | natural {value : Nat} (fits : value < UInt64.size) :
    Spells (.natural value) (Nat.toDigits 10 value)
  | text (value : String) : Spells (ofText value) (quote value)
  | emptyArray : Spells (.array []) ['[', ']']
  | array {item : Json} {items : List Json} {blanks text rest : List Char} (hblanks : Blanks blanks)
    (hitem : Spells item text) (hitems : SpellsItems items rest) :
    Spells (.array (item :: items)) ('[' :: (blanks ++ (text ++ rest)))
  | emptyObject : Spells (.object []) ['\x7b', '\x7d']
  | object {key : String} {value : Json} {members : List (Option String × Json)}
    {blanks space text rest : List Char} (hblanks : Blanks blanks) (hspace : Blanks space)
    (hvalue : Spells value text) (hmembers : SpellsMembers members rest) :
    Spells (.object ((some key, value) :: members))
      ('\x7b' :: (blanks ++ (quote key ++ ':' :: (space ++ (text ++ rest)))))

/-- The text spells items and a closing bracket, with a comma in front of every item. -/
inductive SpellsItems : List Json → List Char → Prop
  | close {blanks : List Char} (hblanks : Blanks blanks) : SpellsItems [] (blanks ++ [']'])
  | next {item : Json} {items : List Json} {blanks text rest : List Char}
    (hblanks : Blanks blanks) (hitem : Spells item text) (hitems : SpellsItems items rest) :
    SpellsItems (item :: items) (',' :: (blanks ++ (text ++ rest)))

/-- The text spells members and a closing brace, with a comma in front of every member. -/
inductive SpellsMembers : List (Option String × Json) → List Char → Prop
  | close {blanks : List Char} (hblanks : Blanks blanks) : SpellsMembers [] (blanks ++ ['\x7d'])
  | next {key : String} {value : Json} {members : List (Option String × Json)}
    {blanks space text rest : List Char} (hblanks : Blanks blanks) (hspace : Blanks space)
    (hvalue : Spells value text) (hmembers : SpellsMembers members rest) :
    SpellsMembers ((some key, value) :: members)
      (',' :: (blanks ++ (quote key ++ ':' :: (space ++ (text ++ rest)))))

end

/-! ## Blanks -/

lemma skipBlanks_append {blanks : List Char} (h : Blanks blanks) (text : List Char) :
    skipBlanks (blanks ++ text) = skipBlanks text :=
  List.dropWhile_append_of_pos h

lemma skipBlanks_cons {c : Char} (h : isBlank c = false) (text : List Char) :
    skipBlanks (c :: text) = c :: text := by
  rw [skipBlanks, List.dropWhile_cons, h]
  rfl

lemma isBlank_iff {c : Char} : isBlank c = true ↔ c = ' ' ∨ c = '\n' ∨ c = '\t' ∨ c = '\r' := by
  simp [isBlank, or_assoc]

/-- A number ends where a blank or a separator stands. -/
lemma ends_of_isBlank {c : Char} (h : isBlank c = true) (rest : List Char) : Ends (c :: rest) := by
  rcases isBlank_iff.mp h with rfl | rfl | rfl | rfl <;> exact ends_cons (by decide) rest

lemma ends_append {blanks : List Char} (h : Blanks blanks) {rest : List Char} (hrest : Ends rest) :
    Ends (blanks ++ rest) := by
  cases blanks with
  | nil => exact hrest
  | cons c blanks => exact ends_of_isBlank (h c List.mem_cons_self) _

lemma SpellsItems.ends {items : List Json} {text : List Char} (h : SpellsItems items text)
    (rest : List Char) : Ends (text ++ rest) := by
  cases h with
  | close hblanks =>
      rw [List.append_assoc]
      exact ends_append hblanks (ends_cons (by decide) rest)
  | next => exact ends_cons (by decide) _

lemma SpellsMembers.ends {members : List (Option String × Json)} {text : List Char}
    (h : SpellsMembers members text) (rest : List Char) : Ends (text ++ rest) := by
  cases h with
  | close hblanks =>
      rw [List.append_assoc]
      exact ends_append hblanks (ends_cons (by decide) rest)
  | next => exact ends_cons (by decide) _

lemma SpellsItems.length_pos {items : List Json} {text : List Char} (h : SpellsItems items text) :
    0 < text.length := by
  cases h <;> simp

lemma SpellsMembers.length_pos {members : List (Option String × Json)} {text : List Char}
    (h : SpellsMembers members text) : 0 < text.length := by
  cases h <;> simp

/-! ## The front of a value -/

lemma not_isBlank_of_isDigit {c : Char} (h : c.isDigit = true) : isBlank c = false := by
  by_contra hblank
  rcases isBlank_iff.mp (Bool.not_eq_false _ ▸ hblank) with rfl | rfl | rfl | rfl <;> cases h

/-- The first character of a value is no blank and closes no array. -/
lemma Spells.front {value : Json} {text : List Char} (h : Spells value text) :
    ∃ c rest, text = c :: rest ∧ isBlank c = false ∧ c ≠ ']' := by
  cases h with
  | natural =>
      rename_i value _
      cases hdigits : Nat.toDigits 10 value with
      | nil => exact absurd hdigits Nat.toDigits_ne_nil
      | cons c digits =>
          have hdigit : c.isDigit = true :=
            isDigit_of_mem_toDigits c (hdigits ▸ List.mem_cons_self)
          refine ⟨c, digits, rfl, not_isBlank_of_isDigit hdigit, ?_⟩
          rintro rfl
          cases hdigit
  | bool value => cases value <;> exact ⟨_, _, rfl, by decide, by decide⟩
  | _ => exact ⟨_, _, rfl, by decide, by decide⟩

lemma Spells.skipBlanks_eq {value : Json} {text : List Char} (h : Spells value text)
    (rest : List Char) : skipBlanks (text ++ rest) = text ++ rest := by
  obtain ⟨c, text, rfl, hblank, -⟩ := h.front
  exact skipBlanks_cons hblank _

lemma readValue_blanks {blanks : List Char} (h : Blanks blanks) (fuel : Nat) (text : List Char) :
    readValue fuel (blanks ++ text) = readValue fuel text := by
  cases fuel with
  | zero => rfl
  | succ fuel => rw [readValue, readValue, skipBlanks_append h]

lemma readItems_blanks {blanks : List Char} (h : Blanks blanks) (fuel : Nat) (text : List Char) :
    readItems fuel (blanks ++ text) = readItems fuel text := by
  cases fuel with
  | zero => rfl
  | succ fuel => rw [readItems, readItems, readValue_blanks h]

lemma readMembers_blanks {blanks : List Char} (h : Blanks blanks) (fuel : Nat) (text : List Char) :
    readMembers fuel (blanks ++ text) = readMembers fuel text := by
  cases fuel with
  | zero => rfl
  | succ fuel => rw [readMembers, readMembers, skipBlanks_append h]

/-! ## One step -/

lemma readValue_text (fuel : Nat) (value : String) (rest : List Char) :
    readValue (fuel + 1) (quote value ++ rest) = (ofText value, some rest) := by
  have hquote : quote value ++ rest = '"' :: (value.toList.flatMap escape ++ '"' :: rest) := by
    simp [quote]
  rw [hquote, readValue, skipBlanks_cons (by decide)]
  simp only [readText_quote]
  rfl

lemma readValue_natural (fuel : Nat) {value : Nat} (hfits : value < UInt64.size) {rest : List Char}
    (hrest : Ends rest) :
    readValue (fuel + 1) (Nat.toDigits 10 value ++ rest) = (.natural value, some rest) := by
  have hskip := (Spells.natural hfits).skipBlanks_eq rest
  have hnumber := readNumber_toDigits hfits hrest
  cases hdigits : Nat.toDigits 10 value with
  | nil => exact absurd hdigits Nat.toDigits_ne_nil
  | cons c digits =>
      have hdigit : c.isDigit = true := isDigit_of_mem_toDigits c (hdigits ▸ List.mem_cons_self)
      rw [hdigits] at hskip hnumber
      rw [readValue, hskip, List.cons_append]
      rw [List.cons_append] at hnumber
      -- a digit begins nothing but a number
      split
      case h_7 => rw [hnumber]
      all_goals
        rename_i heq
        obtain ⟨rfl, -⟩ := List.cons.inj heq
        cases hdigit

variable {fuel : Nat}

lemma readValue_openArray (fuel : Nat) (rest : List Char) :
    readValue (fuel + 1) ('[' :: rest) =
      match skipBlanks rest with
      | ']' :: rest => (.array [], some rest)
      | rest => (.array (readItems fuel rest).1, (readItems fuel rest).2) := rfl

lemma readValue_openObject (fuel : Nat) (rest : List Char) :
    readValue (fuel + 1) ('\x7b' :: rest) =
      match skipBlanks rest with
      | '\x7d' :: rest => (.object [], some rest)
      | rest => (.object (readMembers fuel rest).1, (readMembers fuel rest).2) := rfl

lemma readItems_last {item : Json} {text rest after : List Char}
    (hitem : readValue fuel text = (item, some rest)) (hclose : skipBlanks rest = ']' :: after) :
    readItems (fuel + 1) text = ([item], some after) := by
  rw [readItems, hitem]
  dsimp only
  rw [hclose]
  rfl

lemma readItems_next {item : Json} {text rest after : List Char}
    (hitem : readValue fuel text = (item, some rest)) (hcomma : skipBlanks rest = ',' :: after) :
    readItems (fuel + 1) text = (item :: (readItems fuel after).1, (readItems fuel after).2) := by
  rw [readItems, hitem]
  dsimp only
  rw [hcomma]
  rfl

lemma quote_append (key : String) (rest : List Char) :
    quote key ++ rest = '"' :: (key.toList.flatMap escape ++ '"' :: rest) := by
  simp [quote]

/-- The members from one on whose key and value have been read. -/
def membersFrom (fuel : Nat) (key : String) (value : Json) (rest : List Char) :
    List (Option String × Json) × Option (List Char) :=
  match skipBlanks rest with
  | ',' :: rest => ((some key, value) :: (readMembers fuel rest).1, (readMembers fuel rest).2)
  | '\x7d' :: rest => ([(some key, value)], some rest)
  | _ => ([(some key, value), (none, .fault)], none)

/-- A member is its key, a colon and its value. -/
lemma readMembers_member (fuel : Nat) (key : String) {value : Json} {text rest : List Char}
    (hvalue : readValue fuel text = (value, some rest)) :
    readMembers (fuel + 1) (quote key ++ ':' :: text) = membersFrom fuel key value rest := by
  have hcolon : skipBlanks (':' :: text) = ':' :: text := skipBlanks_cons (by decide) _
  rw [quote_append, readMembers, skipBlanks_cons (by decide)]
  simp only [readText_quote, hcolon, hvalue]
  rfl

lemma membersFrom_last {key : String} {value : Json} {rest after : List Char}
    (hclose : skipBlanks rest = '\x7d' :: after) :
    membersFrom fuel key value rest = ([(some key, value)], some after) := by
  rw [membersFrom, hclose]
  rfl

lemma membersFrom_next {key : String} {value : Json} {rest after : List Char}
    (hcomma : skipBlanks rest = ',' :: after) :
    membersFrom fuel key value rest
      = ((some key, value) :: (readMembers fuel after).1, (readMembers fuel after).2) := by
  rw [membersFrom, hcomma]
  rfl

/-- With this much fuel, texts of half that length are read as what they spell. -/
structure Reads (fuel : Nat) : Prop where
  value : ∀ {value text}, Spells value text → 2 * text.length ≤ fuel → ∀ {rest}, Ends rest →
    readValue fuel (text ++ rest) = (value, some rest)
  items : ∀ {item items text rest}, Spells item text → SpellsItems items rest →
    2 * (text ++ rest).length ≤ fuel → ∀ after,
      readItems fuel (text ++ (rest ++ after)) = (item :: items, some after)
  members : ∀ {key value members space text rest}, Blanks space → Spells value text →
    SpellsMembers members rest → 2 * (quote key ++ ':' :: (space ++ (text ++ rest))).length ≤ fuel →
      ∀ after, readMembers fuel (quote key ++ ':' :: (space ++ (text ++ (rest ++ after))))
        = ((some key, value) :: members, some after)

namespace Reads

/-- An array that is not empty is read from its first item on. -/
lemma readValue_array (h : Reads fuel) {item : Json} {items : List Json}
    {blanks text rest : List Char} (hblanks : Blanks blanks) (hitem : Spells item text)
    (hitems : SpellsItems items rest) (hfuel : 2 * (text ++ rest).length ≤ fuel)
    (after : List Char) :
    readValue (fuel + 1) ('[' :: (blanks ++ (text ++ (rest ++ after))))
      = (.array (item :: items), some after) := by
  have hread := h.items hitem hitems hfuel after
  have hskip := hitem.skipBlanks_eq (rest ++ after)
  obtain ⟨c, text, rfl, -, hopen⟩ := hitem.front
  rw [readValue_openArray, skipBlanks_append hblanks, hskip]
  split
  case h_1 heq =>
    obtain ⟨rfl, -⟩ := List.cons.inj heq
    exact absurd rfl hopen
  case h_2 => rw [hread]

/-- An object that is not empty is read from its first member on. -/
lemma readValue_object (h : Reads fuel) {key : String} {value : Json}
    {members : List (Option String × Json)} {blanks space text rest : List Char}
    (hblanks : Blanks blanks) (hspace : Blanks space) (hvalue : Spells value text)
    (hmembers : SpellsMembers members rest)
    (hfuel : 2 * (quote key ++ ':' :: (space ++ (text ++ rest))).length ≤ fuel)
    (after : List Char) :
    readValue (fuel + 1)
        ('\x7b' :: (blanks ++ (quote key ++ ':' :: (space ++ (text ++ (rest ++ after))))))
      = (.object ((some key, value) :: members), some after) := by
  have hread := h.members hspace hvalue hmembers hfuel after
  rw [quote_append] at hread
  rw [readValue_openObject, skipBlanks_append hblanks, quote_append, skipBlanks_cons (by decide)]
  show (Json.object (readMembers fuel _).1, (readMembers fuel _).2) = _
  rw [hread]

lemma value_step (h : Reads fuel) {value : Json} {text : List Char} (hspells : Spells value text)
    (hfuel : 2 * text.length ≤ fuel + 1) {rest : List Char} (hrest : Ends rest) :
    readValue (fuel + 1) (text ++ rest) = (value, some rest) := by
  cases hspells with
  | null => rfl
  | bool value => cases value <;> rfl
  | natural hfits => exact readValue_natural fuel hfits hrest
  | text value => exact readValue_text fuel value rest
  | emptyArray => rfl
  | array hblanks hitem hitems =>
      simp only [List.cons_append, List.append_assoc]
      refine h.readValue_array hblanks hitem hitems ?_ rest
      simp only [List.length_cons, List.length_append] at hfuel ⊢
      omega
  | emptyObject => rfl
  | object hblanks hspace hvalue hmembers =>
      simp only [List.cons_append, List.append_assoc]
      refine h.readValue_object hblanks hspace hvalue hmembers ?_ rest
      simp only [List.length_cons, List.length_append] at hfuel ⊢
      omega

lemma items_step (h : Reads fuel) {item : Json} {items : List Json} {text rest : List Char}
    (hitem : Spells item text) (hitems : SpellsItems items rest)
    (hfuel : 2 * (text ++ rest).length ≤ fuel + 1) (after : List Char) :
    readItems (fuel + 1) (text ++ (rest ++ after)) = (item :: items, some after) := by
  have hpos := hitems.length_pos
  rw [List.length_append] at hfuel
  have hread := h.value hitem (by omega) (hitems.ends after)
  cases hitems with
  | close hblanks =>
      refine readItems_last hread ?_
      rw [List.append_assoc, skipBlanks_append hblanks]
      rfl
  | next hblanks hnext hitems =>
      simp only [List.length_cons, List.length_append] at hfuel
      have hrest := h.items hnext hitems (by rw [List.length_append]; omega) after
      simp only [List.cons_append, List.append_assoc] at hread ⊢
      rw [readItems_next hread (skipBlanks_cons (by decide) _), readItems_blanks hblanks, hrest]

lemma members_step (h : Reads fuel) {key : String} {value : Json}
    {members : List (Option String × Json)} {space text rest : List Char} (hspace : Blanks space)
    (hvalue : Spells value text) (hmembers : SpellsMembers members rest)
    (hfuel : 2 * (quote key ++ ':' :: (space ++ (text ++ rest))).length ≤ fuel + 1)
    (after : List Char) :
    readMembers (fuel + 1) (quote key ++ ':' :: (space ++ (text ++ (rest ++ after))))
      = ((some key, value) :: members, some after) := by
  have hpos := hmembers.length_pos
  simp only [List.length_cons, List.length_append] at hfuel
  have hread := h.value hvalue (by omega) (hmembers.ends after)
  rw [readMembers_member fuel key ((readValue_blanks hspace fuel _).trans hread)]
  cases hmembers with
  | close hblanks =>
      refine membersFrom_last ?_
      rw [List.append_assoc, skipBlanks_append hblanks]
      rfl
  | @next key _ _ _ space text rest hblanks hspace hnext hmembers =>
      have hlen : 2 * (quote key ++ ':' :: (space ++ (text ++ rest))).length ≤ fuel := by
        simp only [List.length_cons, List.length_append] at hfuel ⊢
        omega
      have hrest := h.members hspace hnext hmembers hlen after
      simp only [List.append_assoc, List.cons_append]
      rw [membersFrom_next (skipBlanks_cons (by decide) _), readMembers_blanks hblanks, hrest]

end Reads

/-- **Any fuel is enough for texts of half that length.**  Every step takes a character, or hands
on to the next with the same text and less fuel, and then that one takes a character. -/
theorem reads (fuel : Nat) : Reads fuel := by
  induction fuel with
  | zero =>
      have hvalue : ∀ {value text}, Spells value text → ¬ 2 * text.length ≤ 0 := by
        intro value text hspells hfuel
        obtain ⟨c, rest, rfl, -⟩ := hspells.front
        simp at hfuel
      refine ⟨fun hspells hfuel => absurd hfuel (hvalue hspells), fun hitem _ hfuel => ?_,
        fun _ _ _ hfuel => ?_⟩
      · refine absurd ?_ (hvalue hitem)
        rw [List.length_append] at hfuel
        omega
      · simp at hfuel
  | succ fuel ih => exact ⟨ih.value_step, ih.items_step, ih.members_step⟩

/-- **A document is read as what it spells.** -/
theorem read_of_spells {value : Json} {text : String} (h : Spells value text.toList) :
    read text = ⟨value, true⟩ := by
  have hread := (reads (2 * text.toList.length + 2)).value h (by omega) ends_nil
  rw [List.append_nil] at hread
  rw [read, hread]
  rfl

end UtxoWire.Json
