import UtxoWire.Proofs.Transaction.Values
import UtxoWire.Proofs.Validator.Calls

/-!
# The running sum of deposits

The check of the sum may be called on any outputs and go on being called after it has failed.  It
fails in two ways that leave different totals: a sum that does not fit into 64 bits is not taken
over, one above the supply is.  Either way the total is exact, as a number without bound, for the
outputs that were taken over.

* `Output.sumCheck_cases` — all that one call can do.
* `Output.takenOver`, `Output.totalAfter` — the outputs that were added up, and the total of them.
* **`Output.toNat_totalAfter`** — the total is the exact sum.
* `Output.verdictAfterCalls_eq_overflow_iff` and its companions — the verdict on a call.
* **`Output.depositSum_verdicts`** — what the check says of every call, and of outputs that it is
  run over.
-/

namespace UtxoWire.Output

variable {supply total : UInt64} {index : Nat} {output : Output}

/-! ## One call -/

/-- The failure of a sum that does not fit into 64 bits. -/
def depositOverflow : WireError :=
  .integerOverflow "accumulating output deposits"

/-- **All that one call can do.**  A sum beyond 64 bits fails and leaves the total as it was.  Any
other is taken over, and fails if it is above the supply. -/
theorem sumCheck_cases (supply total : UInt64) (index : Nat) (output : Output) :
    (2 ^ 64 ≤ total.toNat + output.amount.toNat ∧
      sumCheck supply total index output = (.error depositOverflow, total)) ∨
    ∃ sum : UInt64, sum.toNat = total.toNat + output.amount.toNat ∧
      sumCheck supply total index output
        = (require (sum ≤ supply) (.supplySumExceeded sum supply), sum) := by
  rw [sumCheck_apply]
  by_cases hfits : total.toNat + output.amount.toNat < 2 ^ 64
  · obtain ⟨sum, hsum⟩ := exists_addDeposit_iff.mpr hfits
    rw [hsum]
    exact .inr ⟨sum, addDeposit_eq_ok.mp hsum, rfl⟩
  · have hoverflow : addDeposit total output.amount = .error depositOverflow := if_neg hfits
    rw [hoverflow]
    exact .inl ⟨Nat.le_of_not_lt hfits, rfl⟩

/-- A total above the supply stays above it, and no call succeeds. -/
lemma sumCheck_of_supply_lt (h : supply < total) :
    (sumCheck supply total index output).1 ≠ .ok () ∧
      supply < (sumCheck supply total index output).2 := by
  rw [UInt64.lt_iff_toNat_lt] at h
  refine ⟨fun hok => ?_, ?_⟩
  · have hle := sumCheck_eq_ok.mp hok
    omega
  · rw [UInt64.lt_iff_toNat_lt]
    rcases sumCheck_cases supply total index output with ⟨-, heq⟩ | ⟨sum, hsum, heq⟩
    · rw [heq]
      exact h
    · rw [heq, hsum]
      omega

/-! ## What has been added up -/

/-- The outputs of the calls that did not fail for a sum beyond 64 bits. -/
def takenOver (supply : UInt64) (calls : List (Nat × Output)) : List Output :=
  (calls.zip ((depositSum supply).verdicts calls)).filterMap fun
    | (_, .error (.integerOverflow _)) => none
    | ((_, output), _) => some output

/-- The total after calls, whatever became of these. -/
def totalAfter (supply : UInt64) (calls : List (Nat × Output)) : UInt64 :=
  (depositSum supply).stateAfter calls

lemma sumAmounts_append (outputs outputs' : List Output) :
    sumAmounts (outputs ++ outputs') = sumAmounts outputs + sumAmounts outputs' := by
  simp [sumAmounts]

variable {calls : List (Nat × Output)}

lemma verdictAfterCalls_depositSum : (depositSum supply).verdictAfterCalls calls index output
    = (sumCheck supply (totalAfter supply calls) index output).1 := rfl

lemma totalAfter_concat : totalAfter supply (calls ++ [(index, output)])
    = (sumCheck supply (totalAfter supply calls) index output).2 :=
  Validator.stateAfter_concat _ _ _ _

/-- A call that fails for a sum beyond 64 bits adds nothing. -/
lemma takenOver_concat_of_overflow
    (h : (depositSum supply).verdictAfterCalls calls index output = .error depositOverflow) :
    takenOver supply (calls ++ [(index, output)]) = takenOver supply calls := by
  rw [takenOver, Validator.filterMap_zip_verdicts_concat, h]
  exact List.append_nil _

/-- A call that succeeds, or fails for the supply, adds its output. -/
lemma takenOver_concat_of_require {sum : UInt64}
    (h : (depositSum supply).verdictAfterCalls calls index output
      = require (sum ≤ supply) (.supplySumExceeded sum supply)) :
    takenOver supply (calls ++ [(index, output)]) = takenOver supply calls ++ [output] := by
  rw [takenOver, Validator.filterMap_zip_verdicts_concat, h, require]
  by_cases hle : sum ≤ supply
  · rw [if_pos hle]
    rfl
  · rw [if_neg hle]
    rfl

/-- **The total is exact**, whatever became of the calls: it is the sum of the outputs that were
taken over, as a number without bound. -/
theorem toNat_totalAfter (supply : UInt64) (calls : List (Nat × Output)) :
    (totalAfter supply calls).toNat = sumAmounts (takenOver supply calls) := by
  induction calls using List.reverseRecOn with
  | nil => rfl
  | append_singleton calls call ih =>
      obtain ⟨index, output⟩ := call
      rw [totalAfter_concat]
      rcases sumCheck_cases supply (totalAfter supply calls) index output with
        ⟨-, heq⟩ | ⟨sum, hsum, heq⟩
      · rw [takenOver_concat_of_overflow (congrArg Prod.fst heq), heq, ih]
      · rw [takenOver_concat_of_require (congrArg Prod.fst heq), sumAmounts_append, heq, hsum, ih,
          sumAmounts_cons, sumAmounts_nil, Nat.add_zero]

/-! ## The verdict on a call -/

/-- The verdict on a call after others, in terms of the exact sum. -/
lemma verdictAfterCalls_cases (supply : UInt64) (calls : List (Nat × Output)) (index : Nat)
    (output : Output) :
    (2 ^ 64 ≤ sumAmounts (takenOver supply calls) + output.amount.toNat ∧
      (depositSum supply).verdictAfterCalls calls index output = .error depositOverflow) ∨
    ∃ sum : UInt64, sum.toNat = sumAmounts (takenOver supply calls) + output.amount.toNat ∧
      (depositSum supply).verdictAfterCalls calls index output
        = require (sum ≤ supply) (.supplySumExceeded sum supply) := by
  rw [← toNat_totalAfter, verdictAfterCalls_depositSum]
  rcases sumCheck_cases supply (totalAfter supply calls) index output with
    ⟨hbig, heq⟩ | ⟨sum, hsum, heq⟩
  · exact .inl ⟨hbig, congrArg Prod.fst heq⟩
  · exact .inr ⟨sum, hsum, congrArg Prod.fst heq⟩

lemma verdictAfterCalls_eq_ok_iff :
    (depositSum supply).verdictAfterCalls calls index output = .ok () ↔
      sumAmounts (takenOver supply calls) + output.amount.toNat ≤ supply.toNat := by
  rw [← toNat_totalAfter]
  exact sumCheck_eq_ok

lemma verdictAfterCalls_eq_overflow_iff :
    (∃ context, (depositSum supply).verdictAfterCalls calls index output
        = .error (.integerOverflow context)) ↔
      2 ^ 64 ≤ sumAmounts (takenOver supply calls) + output.amount.toNat := by
  rcases verdictAfterCalls_cases supply calls index output with ⟨hbig, heq⟩ | ⟨sum, hsum, heq⟩
  · exact iff_of_true ⟨_, heq⟩ hbig
  · rw [heq]
    refine iff_of_false ?_ (by have := sum.toNat_lt; omega)
    rintro ⟨context, hcontext⟩
    cases (require_eq_error.mp hcontext).2

lemma verdictAfterCalls_eq_exceeded_iff {sum : UInt64} :
    (depositSum supply).verdictAfterCalls calls index output
        = .error (.supplySumExceeded sum supply) ↔
      sum.toNat = sumAmounts (takenOver supply calls) + output.amount.toNat ∧ supply < sum := by
  rcases verdictAfterCalls_cases supply calls index output with ⟨hbig, heq⟩ | ⟨exact, hexact, heq⟩
  · rw [heq]
    refine iff_of_false nofun (by have := sum.toNat_lt; omega)
  · rw [heq, require_eq_error, ← hexact, UInt64.toNat_inj, UInt64.not_le]
    constructor
    · rintro ⟨hlt, hsum⟩
      cases hsum
      exact ⟨rfl, hlt⟩
    · rintro ⟨rfl, hlt⟩
      exact ⟨hlt, rfl⟩

/-- After a total above the supply no call succeeds. -/
lemma not_ok_of_exceeded {earlier : List (Nat × Output)} {sum : UInt64}
    (h : (depositSum supply).verdictAfterCalls earlier index output
      = .error (.supplySumExceeded sum supply)) (later : List (Nat × Output)) :
    ∀ verdict ∈ ((depositSum supply).afterCalls (earlier ++ [(index, output)])).verdicts later,
      verdict ≠ .ok () := by
  have habove : supply < totalAfter supply (earlier ++ [(index, output)]) := by
    obtain ⟨hsum, hlt⟩ := verdictAfterCalls_eq_exceeded_iff.mp h
    rw [UInt64.lt_iff_toNat_lt] at hlt ⊢
    rcases verdictAfterCalls_cases supply earlier index output with ⟨hbig, -⟩ | ⟨exact, -, heq⟩
    · have hfits := sum.toNat_lt
      omega
    · rw [toNat_totalAfter, takenOver_concat_of_require heq, sumAmounts_append, sumAmounts_cons,
        sumAmounts_nil]
      omega
  exact (depositSum supply).forall_mem_verdicts (supply < ·) (· ≠ .ok ())
    (fun _ _ _ => sumCheck_of_supply_lt) habove later

/-- **The running sum is exact over any calls.**  The total is the sum of the outputs that were
taken over, which are those of the calls that did not fail for a sum beyond 64 bits.  A call fails
for that exactly when the total before it and its amount together are beyond 64 bits.  Otherwise it
fails, and tells the new total, exactly when this is above the supply; and after that no call
succeeds.  Run over outputs the check therefore accepts them when all of them together deposit no
more than the supply, and then this is their total deposit. -/
theorem depositSum_verdicts (supply : UInt64) :
    (∀ calls, (totalAfter supply calls).toNat = sumAmounts (takenOver supply calls)) ∧
    (∀ earlier index output later, ∃ verdict rest,
      (depositSum supply).verdicts (earlier ++ (index, output) :: later)
        = (depositSum supply).verdicts earlier ++ verdict :: rest ∧
      (verdict = .ok () ↔
        sumAmounts (takenOver supply earlier) + output.amount.toNat ≤ supply.toNat) ∧
      ((∃ context, verdict = .error (.integerOverflow context)) ↔
        2 ^ 64 ≤ sumAmounts (takenOver supply earlier) + output.amount.toNat) ∧
      ∀ sum : UInt64,
        (verdict = .error (.supplySumExceeded sum supply) ↔
          sum.toNat = sumAmounts (takenOver supply earlier) + output.amount.toNat ∧
            supply < sum) ∧
        (verdict = .error (.supplySumExceeded sum supply) →
          ∀ laterVerdict ∈ rest, laterVerdict ≠ .ok ())) ∧
    (∀ outputs, validate outputs [depositSum supply] = .ok () ↔
      sumAmounts outputs ≤ supply.toNat) ∧
    ∀ tx : UnsignedTransaction, validate tx.outputs [depositSum supply] = .ok () →
      ∃ total, tx.totalDeposit = .ok total ∧ total.toNat = sumAmounts tx.outputs := by
  refine ⟨toNat_totalAfter supply, fun earlier index output later => ?_,
    fun outputs => validate_depositSum, fun tx hvalid => ?_⟩
  · exact ⟨_, _, (depositSum supply).verdicts_append_cons earlier later index output,
      verdictAfterCalls_eq_ok_iff, verdictAfterCalls_eq_overflow_iff, fun sum =>
        ⟨verdictAfterCalls_eq_exceeded_iff, fun h => not_ok_of_exceeded h later⟩⟩
  · have hle := validate_depositSum.mp hvalid
    have htotal : (UInt64.ofNat (sumAmounts tx.outputs)).toNat = sumAmounts tx.outputs :=
      UInt64.toNat_ofNat_of_lt' (Nat.lt_of_le_of_lt hle supply.toNat_lt)
    exact ⟨_, UnsignedTransaction.totalDeposit_eq_ok.mpr htotal, htotal⟩

/-- Deposits of 5 and 7 are more than a supply of 10, which an amount that cannot be added and a
deposit of nothing do not mend; deposits of 5 and 4 are not. -/
theorem depositSum_verdicts_exceeded :
    let deposit (amount : UInt64) : Output := .singleDeposit { address := default, amount }
    let later := [(1, deposit 0xFFFFFFFFFFFFFFFF), (4, deposit 0)]
    (∃ rest,
      (depositSum 10).verdicts ((0, deposit 5) :: (1, deposit 7) :: later)
        = .ok () :: .error (.supplySumExceeded 12 10) :: rest ∧
      rest = [.error depositOverflow, .error (.supplySumExceeded 12 10)] ∧
      ∀ verdict ∈ rest, verdict ≠ .ok ()) ∧
    validate [deposit 5, deposit 4] [depositSum 10] = .ok () ∧
    ∃ total, ({ outputs := [deposit 5, deposit 4] } : UnsignedTransaction).totalDeposit = .ok total ∧
      total.toNat = 9 := by
  intro deposit later
  obtain ⟨-, hcalls, hrun, htotal⟩ := depositSum_verdicts 10
  obtain ⟨verdict, rest, hverdicts, -, -, hsum⟩ :=
    hcalls [(0, deposit 5)] 1 (deposit 7) later
  have hvalid : validate [deposit 5, deposit 4] [depositSum 10] = .ok () :=
    (hrun _).mpr (by decide)
  refine ⟨?_, hvalid, htotal { outputs := [deposit 5, deposit 4] } hvalid⟩
  obtain rfl : verdict = .error (.supplySumExceeded 12 10) :=
    (hsum 12).1.mpr ⟨by decide +kernel, by decide⟩
  refine ⟨rest, hverdicts, ?_, (hsum 12).2 rfl⟩
  have hlist : (depositSum 10).verdicts ([(0, deposit 5)] ++ (1, deposit 7) :: later)
      = [.ok (), .error (.supplySumExceeded 12 10), .error depositOverflow,
        .error (.supplySumExceeded 12 10)] := by decide +kernel
  rw [hlist] at hverdicts
  cases hverdicts
  rfl

end UtxoWire.Output
