import UtxoWire.Output
import UtxoWire.Validator

/-!
# Checks on outputs

* `Output.uniqueAddresses` — no two outputs deposit to the same address.
* `Output.depositAmounts` — every deposit is above zero and within the supply.
* `Output.depositSum` — all deposits together are within the supply.
* `addDeposit` — the sum they are added up in.
-/

namespace UtxoWire

/-- Adds a deposit to a total, if the sum fits into 64 bits. -/
def addDeposit (total amount : UInt64) : Except WireError UInt64 :=
  if total.toNat + amount.toNat < UInt64.size then .ok (total + amount)
  else .error (.integerOverflow "accumulating output deposits")

namespace Output

/-- No two outputs deposit to the same address. -/
def uniqueAddresses : Validator Output :=
  .unique (fun output => .ok (some output.address.encode)) .duplicateDeposit

/-- Every deposit is above zero, and none is above the supply. -/
def depositAmounts (supply : UInt64) : Validator Output where
  State := Unit
  state := ()
  check := fun _ index output =>
    let verdict := do
      require (output.amount ≠ 0) (.invalidDepositAmount index output.amount)
      require (output.amount ≤ supply) (.supplyExceeded index output.amount supply)
    (verdict, ())

/-- The deposits so far together are not above the supply.  A total that no longer fits into 64 bits
is not taken over; one above the supply is. -/
def depositSum (supply : UInt64) : Validator Output where
  State := UInt64
  state := 0
  check := fun total _ output =>
    match addDeposit total output.amount with
    | .error error => (.error error, total)
    | .ok total => (require (total ≤ supply) (.supplySumExceeded total supply), total)

end Output

end UtxoWire
