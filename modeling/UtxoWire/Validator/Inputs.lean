import UtxoWire.Input
import UtxoWire.Validator

/-!
# Checks on inputs

* `Input.uniqueReferences` — no two inputs spend the same output.
* `Input.referenceBounds` — no input refers to an output index above the highest allowed.
-/

namespace UtxoWire.Input

/-- No two inputs spend the same output. -/
def uniqueReferences : Validator Input :=
  .unique (fun input => .ok (some input.reference)) .duplicateReference

/-- No input refers to an output index above `max`.  How many outputs the transaction referred to
really has is not known here. -/
def referenceBounds (max : UInt16) : Validator Input where
  State := Unit
  state := ()
  check := fun _ index input =>
    (require (input.outputIndex ≤ max) (.invalidReference index input.outputIndex max), ())

end UtxoWire.Input
