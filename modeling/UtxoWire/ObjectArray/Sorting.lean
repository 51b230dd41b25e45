import UtxoWire.Codec

/-!
# Sorting by wire form

The order that arrays of inputs and outputs have to be in.  Objects with equal wire forms keep the
order they came in.
-/

namespace UtxoWire.ObjectArray

variable {α : Type}

/-- An object together with the wire form it is sorted by. -/
def withKey (codec : Codec α) (object : α) : Except WireError (Bytes × α) := do
  let key ← codec.encode .structural object
  return (key, object)

/-- The objects in ascending order of their wire forms.  Fails if one of them has none, with the
error of the first such. -/
def sort (codec : Codec α) (objects : List α) : Except WireError (List α) := do
  let keyed ← objects.mapM (withKey codec)
  return (keyed.mergeSort fun a b => decide (a.1 ≤ b.1)).map Prod.snd

end UtxoWire.ObjectArray
