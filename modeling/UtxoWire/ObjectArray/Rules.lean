import UtxoWire.Slice

/-!
# Rules for arrays

What an array has to satisfy depends on where it stands: the inputs of a transaction must come in
order, its unlock blocks need not.

* `ArrayRules` — bounds on the number of elements, and whether the elements have to be in order.
* `OrderCheck` — one pass over the elements of an array that has to be in order.
-/

namespace UtxoWire

/-- What is asked of an array at one place of the format. -/
structure ArrayRules where
  /-- The name of the place, for messages. -/
  name : String
  /-- The fewest elements; 0 means that there is no bound. -/
  min : UInt64
  /-- The most elements; 0 means that there is no bound. -/
  max : UInt64
  /-- Whether the wire forms of the elements have to be strictly ascending. -/
  lexicalOrder : Bool
deriving DecidableEq

namespace ArrayRules

/-- Refuses a number of elements outside the bounds; the lower bound is looked at first. -/
def checkBounds (rules : ArrayRules) (count : UInt64) : Except WireError Unit := do
  require (rules.min = 0 ∨ rules.min ≤ count)
    (.countOutOfBounds rules.name .min rules.min count)
  require (rules.max = 0 ∨ count ≤ rules.max)
    (.countOutOfBounds rules.name .max rules.max count)

/-- The same rules with other bounds. -/
def withBounds (rules : ArrayRules) (min max : UInt64) : ArrayRules :=
  { rules with min, max }

end ArrayRules

/-- One pass over the elements of an array that has to be in order.  It remembers the last element
it accepted. -/
structure OrderCheck where
  /-- The name of the array, for messages. -/
  arrayName : String
  /-- The place and the wire form of the last accepted element. -/
  previous : Option (Nat × Bytes)
deriving DecidableEq

namespace OrderCheck

/-- A pass that has seen nothing yet. -/
def start (arrayName : String) : OrderCheck :=
  ⟨arrayName, none⟩

/-- Looks at the next element.  One that does not sort strictly after the remembered one is refused
and not remembered in its stead. -/
def check (order : OrderCheck) (index : Nat) (next : Bytes) : Except WireError Unit × OrderCheck :=
  match order.previous with
  | none => (.ok (), { order with previous := some (index, next) })
  | some (previousIndex, previous) =>
    if previous < next then (.ok (), { order with previous := some (index, next) })
    else (.error (.lexicalOrderViolation order.arrayName previousIndex index), order)

/-- The outcomes of looking at elements one after the other, going on after a refusal. -/
def checkAll : OrderCheck → List (Nat × Bytes) → List (Except WireError Unit)
  | _, [] => []
  | order, (index, next) :: rest =>
    let (outcome, order) := order.check index next
    outcome :: order.checkAll rest

end OrderCheck

/-- The pass that rules ask for, if they ask for order. -/
def ArrayRules.orderCheck? (rules : ArrayRules) : Option OrderCheck :=
  if rules.lexicalOrder then some (OrderCheck.start rules.name) else none

end UtxoWire
