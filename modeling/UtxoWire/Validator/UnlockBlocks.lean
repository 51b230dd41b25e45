import UtxoWire.UnlockBlock
import UtxoWire.Validator

/-!
# Checks on unlock blocks

* `UnlockBlock.references` — every reference block names an earlier signature block.
* `UnlockBlock.uniqueSignatures` — no signature is carried twice.
-/

namespace UtxoWire.UnlockBlock

/-- Every reference block names an earlier signature block.  The kinds of the blocks accepted so far
are remembered in order; a refused block leaves no trace. -/
def references : Validator UnlockBlock where
  State := List Bool
  state := []
  check := fun kinds index block =>
    match block with
    | .signature _ => (.ok (), kinds ++ [true])
    | .reference block =>
      let target := block.reference.toNat
      if target < index ∧ kinds[target]? = some true then (.ok (), kinds ++ [false])
      else (.error (.invalidUnlockReference index block.reference), kinds)

/-- No two signature blocks carry the same signature.  One without a wire form fails. -/
def uniqueSignatures : Validator UnlockBlock :=
  .unique
    (fun
      | .signature block => block.signature.encode.map some
      | .reference _ => .ok none)
    .duplicateSignature

end UtxoWire.UnlockBlock
