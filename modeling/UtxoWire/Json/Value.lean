/-!
# JSON values

A JSON text as a tree, as far as anything is made of it.

A text may be at fault somewhere in the middle, and whoever makes something of it may have found
something to object to before that place.  So the tree of a faulty text is what comes before the
fault, with `Json.fault` standing where the fault is.

* `Json` — the trees.
* `Json.sound` — there is no fault in the tree.
* `Json.keepable` — the tree can be kept and looked at again later.
* `Json.sortKeys` — the same tree with the members of every object in the order of their keys.
-/

namespace UtxoWire

/-- A JSON value.  A text inside one is missing where its escapes do not spell one: half of a
surrogate pair on its own. -/
inductive Json
  | null
  | bool (value : Bool)
  /-- A whole number written as digits alone; in a text that is read, one of 64 bits. -/
  | natural (value : Nat)
  /-- Any other number; nothing is made of it but whether it is finite as a double. -/
  | number (finite : Bool)
  | string (text : Option String)
  | array (items : List Json)
  | object (members : List (Option String × Json))
  /-- The place where the text is at fault. -/
  | fault

namespace Json

/-! ## What can be done with a tree -/

mutual

/-- There is no fault in the tree. -/
def sound : Json → Bool
  | .array items => soundItems items
  | .object members => soundMembers members
  | .fault => false
  | _ => true

/-- There is no fault in any of the items. -/
def soundItems : List Json → Bool
  | [] => true
  | item :: items => item.sound && soundItems items

/-- There is no fault in any of the members. -/
def soundMembers : List (Option String × Json) → Bool
  | [] => true
  | (_, value) :: members => value.sound && soundMembers members

end

mutual

/-- Whether a tree can be kept: nothing at fault in it, every text there, every number finite as a
double, and at most `room` arrays and objects nested in one another. -/
def keepable (room : Nat) : Json → Bool
  | .number finite => finite
  | .string text => text.isSome
  | .array items => decide (0 < room) && keepableItems (room - 1) items
  | .object members => decide (0 < room) && keepableMembers (room - 1) members
  | .fault => false
  | _ => true

/-- Whether all items can be kept. -/
def keepableItems (room : Nat) : List Json → Bool
  | [] => true
  | item :: items => item.keepable room && keepableItems room items

/-- Whether all members can be kept. -/
def keepableMembers (room : Nat) : List (Option String × Json) → Bool
  | [] => true
  | (key, value) :: members =>
    key.isSome && value.keepable room && keepableMembers room members

end

/-! ## Order of keys -/

/-- Puts a member in front of the first that has a key above its own. -/
def insertMember (member : Option String × Json) :
    List (Option String × Json) → List (Option String × Json)
  | [] => [member]
  | other :: members =>
    if other.1.getD "" < member.1.getD "" then other :: insertMember member members
    else member :: other :: members

mutual

/-- The members of every object in the order of their keys. -/
def sortKeys : Json → Json
  | .array items => .array (sortKeysItems items)
  | .object members => .object (sortKeysMembers members)
  | value => value

/-- Every item with its keys in order. -/
def sortKeysItems : List Json → List Json
  | [] => []
  | item :: items => item.sortKeys :: sortKeysItems items

/-- The members in order, and the keys of each of them too. -/
def sortKeysMembers : List (Option String × Json) → List (Option String × Json)
  | [] => []
  | (key, value) :: members => insertMember (key, value.sortKeys) (sortKeysMembers members)

end

/-- An object all of whose keys are texts. -/
def ofFields (fields : List (String × Json)) : Json :=
  .object (fields.map fun field => (some field.1, field.2))

/-- A text. -/
def ofText (text : String) : Json :=
  .string (some text)

end Json

end UtxoWire
