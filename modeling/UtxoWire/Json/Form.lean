import UtxoWire.Json.Printer
import UtxoWire.Json.Reader

/-!
# Values as JSON

How values are described in JSON, and how a description is turned back into a value.

* `JsonForm α` — the form of the values of a type: `toJson` and `ofJson`.
* `JsonForm.print`, `JsonForm.parse` — from a value to a text and back.
* `Misfit` — why a description is refused.  Things are looked at in the order they are written in,
  and the first reason counts.

A record is an object with a member for each field, or an array of the fields in order.  Of an object
the order of members does not matter, unknown members are passed over, and no known member may come
twice.  A value of one of several variants is a pair of the variant's name and its content, an object
with the member `type` and one more, or an array of the two.

The content may come before the name.  It is then kept as it is until the name is known, and what is
made of kept content is a little more: in places where there is nothing to say an empty object does
as well as `null`, and an array may give a variant by its number instead of its name.
-/

namespace UtxoWire

/-- Why a JSON value does not describe what it should. -/
inductive Misfit
  /-- A field of bytes is not hexadecimal. -/
  | hex (fault : Hex.Fault)
  /-- Any other reason: the text is at fault, or its parts are not those asked for. -/
  | shape
deriving DecidableEq

/-- Where in a document a value stands. -/
structure Place where
  /-- How many arrays and objects may be nested in one another from here on, where content is kept
  for later. -/
  room : Nat
  /-- The value is part of content that was kept until its variant was known. -/
  kept : Bool

/-- The place of a document's own value. -/
def Place.top : Place :=
  ⟨127, false⟩

/-- The place of an item or member of the value. -/
def Place.inner (place : Place) : Place :=
  { place with room := place.room - 1 }

/-- How the values of a type are described in JSON. -/
class JsonForm (α : Type) where
  /-- The description of a value. -/
  toJson : α → Json
  /-- The value that is described. -/
  ofJson : Place → Json → Except Misfit α

namespace JsonForm

variable {α : Type} [JsonForm α]

/-- The text that describes a value. -/
def print (value : α) : String :=
  (toJson value).compactText

/-- The value that a text describes.  The text is at fault if anything follows the description. -/
def parse (text : String) : Except Misfit α := do
  let document := Json.read text
  let value ← ofJson Place.top document.value
  if document.complete then return value else throw .shape

end JsonForm

open JsonForm

/-! ## Scalars -/

/-- A whole number below a limit. -/
def readNatural (limit : Nat) : Json → Except Misfit Nat
  | .natural value => if value < limit then .ok value else .error .shape
  | _ => .error .shape

instance : JsonForm UInt64 where
  toJson value := .natural value.toNat
  ofJson _ json := (readNatural UInt64.size json).map UInt64.ofNat

instance : JsonForm UInt16 where
  toJson value := .natural value.toNat
  ofJson _ json := (readNatural UInt16.size json).map UInt16.ofNat

/-- The digits of a field of bytes, without the marks in front. -/
def readDigits : Json → Except Misfit Bytes
  | .string (some text) => .ok (Hex.stripMarks (utf8 text))
  | _ => .error .shape

/-- A field of a fixed number of bytes, in hexadecimal. -/
instance {n : Nat} : JsonForm (FixedBytes n) where
  toJson field := .ofText (Hex.text field.bytes)
  ofJson _ json := do (Hex.decodeFixed n (← readDigits json)).mapError .hex

/-- A field of any number of bytes, in hexadecimal. -/
instance : JsonForm Bytes where
  toJson bytes := .ofText (Hex.text bytes)
  ofJson _ json := do (Hex.decode (← readDigits json)).mapError .hex

/-- A value that may be missing. -/
instance {α : Type} [JsonForm α] : JsonForm (Option α) where
  toJson value := value.elim .null toJson
  ofJson place json :=
    match json with
    | .null => .ok none
    | json => (ofJson place json).map some

/-! ## Lists -/

/-- The values that items describe, in order. -/
def readItems {α : Type} [JsonForm α] (place : Place) : List Json → Except Misfit (List α)
  | [] => .ok []
  | item :: items => do
    let value ← ofJson place item
    let values ← readItems place items
    return value :: values

instance {α : Type} [JsonForm α] : JsonForm (List α) where
  toJson values := .array (values.map toJson)
  ofJson place json :=
    match json with
    | .array items => readItems place.inner items
    | _ => .error .shape

/-! ## Records -/

/-- The next of the fields given in order. -/
def nextItem {α : Type} [JsonForm α] (place : Place) : List Json → Except Misfit (α × List Json)
  | [] => .error .shape
  | item :: items => do
    let value ← ofJson place item
    return (value, items)

/-- The next of the fields given in order, or a default if there are no more. -/
def nextItemD {α : Type} [JsonForm α] (place : Place) (default : α) :
    List Json → Except Misfit (α × List Json)
  | [] => .ok (default, [])
  | items => nextItem place items

/-- There must be no more fields. -/
def noMore : List Json → Except Misfit Unit
  | [] => .ok ()
  | _ => .error .shape

/-- Takes a field that must not have been given before. -/
def readSlot {α : Type} [JsonForm α] (place : Place) (slot : Option α) (json : Json) :
    Except Misfit (Option α) :=
  match slot with
  | some _ => .error .shape
  | none => (ofJson place json).map some

/-- Passes over a value of no interest, unless the text is at fault in it. -/
def passOver {σ : Type} (state : σ) (json : Json) : Except Misfit σ :=
  if json.sound then .ok state else .error .shape

/-- A field that must have been given. -/
def required {α : Type} (slot : Option α) : Except Misfit α :=
  match slot with
  | some value => .ok value
  | none => .error .shape

/-- Takes the members of an object one after the other. -/
def readMembers {σ : Type} (take : σ → String → Json → Except Misfit σ) :
    σ → List (Option String × Json) → Except Misfit σ
  | state, [] => .ok state
  | _, (none, _) :: _ => .error .shape
  | state, (some key, value) :: members => do
    let state ← take state key value
    readMembers take state members

/-- Reads a record from its fields in order or from its members. -/
def readRecord {α : Type} (ofItems : Place → List Json → Except Misfit α)
    (ofMembers : Place → List (Option String × Json) → Except Misfit α) (place : Place) :
    Json → Except Misfit α
  | .array items => ofItems place.inner items
  | .object members => ofMembers place.inner members
  | _ => .error .shape

/-! ## Variants -/

/-- The name of the member that says which variant a value is of. -/
def tagKey : String := "type"

/-- The variants a value may be of, each with its name, in the order of their numbers. -/
abbrev Variants (τ : Type) := List (String × τ)

/-- A value of one of several variants: the name of its variant, and its content. -/
def taggedJson (contentKey tag : String) (content : Json) : Json :=
  .ofFields [(tagKey, .ofText tag), (contentKey, content)]

/-- How far the members of a tagged value have been read. -/
inductive TaggedState (τ α : Type)
  | start
  /-- The variant is known. -/
  | tag (variant : τ)
  /-- The content came first and is kept. -/
  | content (json : Json)
  | done (value : α)

/-- Whether a value says that there is nothing to say. -/
def isNothing (place : Place) : Json → Bool
  | .null => true
  | .object [] => place.kept
  | _ => false

/-- The variant that a member names.  Instead of the bare name there may be an object with the name
as its only member and nothing in it. -/
def readTag {τ : Type} (variants : Variants τ) (place : Place) : Json → Except Misfit τ
  | .string (some name) => required (variants.lookup name)
  | .object [(some name, content)] =>
    if isNothing place content then required (variants.lookup name) else .error .shape
  | _ => .error .shape

/-- The variant that an item names, or gives by its number where content was kept. -/
def readTagItem {τ : Type} (variants : Variants τ) (place : Place) : Json → Except Misfit τ
  | .string (some name) => required (variants.lookup name)
  | .natural number =>
    if place.kept then required (variants[number]?.map Prod.snd) else .error .shape
  | _ => .error .shape

/-- Takes a member of a tagged value.  Content that comes before the variant is known is kept. -/
def takeTagged {τ α : Type} (contentKey : String) (variants : Variants τ)
    (readContent : τ → Place → Json → Except Misfit α) (place : Place)
    (state : TaggedState τ α) (key : String) (json : Json) : Except Misfit (TaggedState τ α) :=
  if key = tagKey then
    match state with
    | .start => (readTag variants place json).map .tag
    | .content kept => do
      let variant ← readTag variants place json
      (readContent variant { place with kept := true } kept).map .done
    | _ => .error .shape
  else if key = contentKey then
    match state with
    | .start => if json.keepable place.room then .ok (.content json) else .error .shape
    | .tag variant => (readContent variant place json).map .done
    | _ => .error .shape
  else passOver state json

/-- Reads a tagged value. -/
def readTagged {τ α : Type} (contentKey : String) (variants : Variants τ)
    (readContent : τ → Place → Json → Except Misfit α) : Place → Json → Except Misfit α :=
  readRecord
    (fun place items =>
      match items with
      | [] => .error .shape
      | tag :: items => do
        let variant ← readTagItem variants place tag
        match items with
        | [] => .error .shape
        | content :: items => do
          let value ← readContent variant place content
          noMore items
          return value)
    (fun place members => do
      match ← readMembers (takeTagged contentKey variants readContent place) .start members with
      | .done value => return value
      | _ => throw .shape)

end UtxoWire
