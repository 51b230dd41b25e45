import UtxoWire.Bytes
import UtxoWire.WireError

/-!
# Validators

Checks on a list of items that look at one item at a time and remember what they need: the keys
they have seen, a running sum.

* `Validator` — a check together with what it remembers so far.
* `validate` — runs validators over a list, item by item, and stops at the first failure.
* `Validator.verdicts` — calls a validator on every item, going on after failures.
* `Validator.unique` — the check that no two items have the same key.
-/

namespace UtxoWire

/-- A check on items, called on one item after the other, that may remember things between calls. -/
structure Validator (α : Type) where
  /-- What the check remembers. -/
  State : Type
  /-- What it remembers now. -/
  state : State
  /-- A call with the item at a place: the verdict, and what is remembered afterwards.  A call that
  fails may change what is remembered, too. -/
  check : State → (index : Nat) → α → Except WireError Unit × State

namespace Validator

variable {α : Type}

/-- Calls a validator: the verdict, and the validator as it is after the call. -/
def call (validator : Validator α) (index : Nat) (item : α) :
    Except WireError Unit × Validator α :=
  let (verdict, state) := validator.check validator.state index item
  (verdict, { validator with state })

/-- Calls validators on one item in the order given, up to the first failure; gives the validators
as they are afterwards. -/
def callEach : List (Validator α) → (index : Nat) → α → Except WireError (List (Validator α))
  | [], _, _ => .ok []
  | validator :: validators, index, item =>
    match validator.call index item with
    | (.error error, _) => .error error
    | (.ok (), validator) =>
      match callEach validators index item with
      | .error error => .error error
      | .ok validators => .ok (validator :: validators)

/-- Runs validators over items, the first of them at place `index`. -/
def runFrom : (index : Nat) → List α → List (Validator α) → Except WireError Unit
  | _, [], _ => .ok ()
  | index, item :: items, validators =>
    match callEach validators index item with
    | .error error => .error error
    | .ok validators => runFrom (index + 1) items validators

/-- The verdicts of calling a validator on items at the given places, going on after failures. -/
def verdicts : Validator α → List (Nat × α) → List (Except WireError Unit)
  | _, [] => []
  | validator, (index, item) :: calls =>
    let (verdict, validator) := validator.call index item
    verdict :: validator.verdicts calls

end Validator

/-- Runs validators over items: each item goes through all validators, in the order given, before
the next item.  The first failure is the answer. -/
def validate {α : Type} (items : List α) (validators : List (Validator α)) :
    Except WireError Unit :=
  Validator.runFrom 0 items validators

/-! ## No key twice -/

/-- Which keys have been seen, each with the place it was first seen at. -/
abbrev Seen := List (Bytes × Nat)

/-- The place a key was first seen at. -/
def Seen.place? (seen : Seen) (key : Bytes) : Option Nat :=
  List.lookup key seen

/-- The check that no two items have the same key.  Items without a key are passed over, and a
failure to find the key is passed on.  A repetition is reported with its place and that of the first
item with the key, and nothing new is remembered. -/
def Validator.unique {α : Type} (key : α → Except WireError (Option Bytes))
    (duplicate : (index duplicateOf : Nat) → WireError) : Validator α where
  State := Seen
  state := []
  check := fun seen index item =>
    match key item with
    | .error error => (.error error, seen)
    | .ok none => (.ok (), seen)
    | .ok (some key) =>
      match seen.place? key with
      | some first => (.error (duplicate index first), seen)
      | none => (.ok (), (key, index) :: seen)

end UtxoWire
