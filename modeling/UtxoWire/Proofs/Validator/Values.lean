import Mathlib.Algebra.GroupWithZero.Nat
import UtxoWire.Proofs.Validator

/-!
# Checks on values

What the checks on output indices and amounts accept.  Some remember nothing and look at each item
alone.  The running sum of deposits is kept in 64 bits; it is exact, since a total that does not fit
is not taken over, and one above the supply ends the run.

* `Output.sumAmounts` — what outputs deposit together, as a number without bound.
* `addDeposit_eq_ok`, `exists_addDeposit_iff` — one addition: what it yields, and when it succeeds.
* `Output.sumCheck_passes` — a run of additions, each held against the supply.
* **`Output.foldlM_addDeposit_eq_ok`** — a run of additions held against nothing but 64 bits.
-/

namespace UtxoWire

/-! ## Checks without memory -/

/-- A check that remembers nothing accepts items when it accepts each of them. -/
lemma Validator.passes_of_forgetful {α : Type} {accepts : α → Prop}
    {check : Unit → (index : Nat) → α → Except WireError Unit × Unit}
    (h : ∀ index item, (check () index item).1 = .ok () ↔ accepts item) {index : Nat}
    {items : List α} : Passes check () index items ↔ ∀ item ∈ items, accepts item := by
  induction items generalizing index with
  | nil => simp [Passes]
  | cons item items ih => rw [Passes, h, ih, List.forall_mem_cons]

/-- The check of output indices, which remembers nothing. -/
def Input.boundsCheck (max : UInt16) : Unit → (index : Nat) → Input →
    Except WireError Unit × Unit :=
  (referenceBounds max).check

lemma Input.boundsCheck_failsOnly {kind : WireError → Prop} {max : UInt16} {index : Nat}
    {input : Input} (h : kind (.invalidReference index input.outputIndex max)) :
    FailsOnly kind (boundsCheck max () index input).1 :=
  .require h

lemma Input.validate_referenceBounds {max : UInt16} {inputs : List Input} :
    validate inputs [referenceBounds max] = .ok () ↔ ∀ input ∈ inputs, input.outputIndex ≤ max := by
  have hrun : validate inputs [referenceBounds max] = .ok () ↔
      Validator.Passes (boundsCheck max) () 0 inputs :=
    Validator.validate_singleton_eq_ok
  rw [hrun, Validator.passes_of_forgetful fun _ _ => require_eq_ok]

namespace Output

/-- The check of single amounts, which remembers nothing. -/
def amountCheck (supply : UInt64) : Unit → (index : Nat) → Output → Except WireError Unit × Unit :=
  (depositAmounts supply).check

lemma amountCheck_apply (supply : UInt64) (index : Nat) (output : Output) :
    (amountCheck supply () index output).1 = (do
      require (output.amount ≠ 0) (.invalidDepositAmount index output.amount)
      require (output.amount ≤ supply) (.supplyExceeded index output.amount supply)) := rfl

lemma amountCheck_eq_ok {supply : UInt64} {index : Nat} {output : Output} :
    (amountCheck supply () index output).1 = .ok () ↔
      1 ≤ output.amount ∧ output.amount ≤ supply := by
  have hpos : output.amount ≠ 0 ↔ 1 ≤ output.amount := by
    rw [UInt64.le_iff_toNat_le, ne_eq, ← UInt64.toNat_inj, UInt64.toNat_one, UInt64.toNat_zero]
    omega
  rw [amountCheck_apply, check_bind_eq_ok, require_eq_ok, require_eq_ok, hpos]

lemma amountCheck_failsOnly {kind : WireError → Prop} {supply : UInt64} {index : Nat}
    {output : Output} (hzero : kind (.invalidDepositAmount index output.amount))
    (hsupply : kind (.supplyExceeded index output.amount supply)) :
    FailsOnly kind (amountCheck supply () index output).1 := by
  rw [amountCheck_apply]
  exact .bind (.require hzero) fun _ => .require hsupply

lemma validate_depositAmounts {supply : UInt64} {outputs : List Output} :
    validate outputs [depositAmounts supply] = .ok () ↔
      ∀ output ∈ outputs, 1 ≤ output.amount ∧ output.amount ≤ supply := by
  have hrun : validate outputs [depositAmounts supply] = .ok () ↔
      Validator.Passes (amountCheck supply) () 0 outputs :=
    Validator.validate_singleton_eq_ok
  rw [hrun, Validator.passes_of_forgetful fun _ _ => amountCheck_eq_ok]

/-! ## The running sum -/

/-- What outputs deposit together, as a number without bound. -/
def sumAmounts (outputs : List Output) : Nat :=
  (outputs.map fun output => output.amount.toNat).sum

@[simp]
lemma sumAmounts_nil : sumAmounts [] = 0 := rfl

@[simp]
lemma sumAmounts_cons (output : Output) (outputs : List Output) :
    sumAmounts (output :: outputs) = output.amount.toNat + sumAmounts outputs := by
  simp [sumAmounts]

end Output

/-- An addition that succeeds yields the exact sum. -/
lemma addDeposit_eq_ok {total amount sum : UInt64} :
    addDeposit total amount = .ok sum ↔ sum.toNat = total.toNat + amount.toNat := by
  have hsum := sum.toNat_lt
  unfold addDeposit
  split
  case isTrue hfits =>
    have hexact : (total + amount).toNat = total.toNat + amount.toNat := by
      rw [UInt64.toNat_add, Nat.mod_eq_of_lt hfits]
    rw [Except.ok.injEq, ← UInt64.toNat_inj, hexact, eq_comm]
  case isFalse hfits =>
    have hsize : UInt64.size = 2 ^ 64 := rfl
    simp only [reduceCtorEq, false_iff]
    omega

lemma addDeposit_failsOnly {kind : WireError → Prop}
    (h : ∀ context, kind (.integerOverflow context)) (total amount : UInt64) :
    FailsOnly kind (addDeposit total amount) :=
  .ite (.ok _) (.error (h _))

/-- An addition succeeds when the exact sum fits into 64 bits. -/
lemma exists_addDeposit_iff {total amount : UInt64} :
    (∃ sum, addDeposit total amount = .ok sum) ↔ total.toNat + amount.toNat < 2 ^ 64 := by
  simp only [addDeposit_eq_ok]
  constructor
  · rintro ⟨sum, hsum⟩
    exact hsum ▸ sum.toNat_lt
  · intro hfits
    exact ⟨UInt64.ofNat (total.toNat + amount.toNat), UInt64.toNat_ofNat_of_lt' hfits⟩

namespace Output

variable {supply total : UInt64} {index : Nat} {output : Output} {outputs : List Output}

/-- The check of the running sum, on what has been deposited so far. -/
def sumCheck (supply : UInt64) : UInt64 → (index : Nat) → Output →
    Except WireError Unit × UInt64 :=
  (depositSum supply).check

lemma sumCheck_apply : sumCheck supply total index output =
    match addDeposit total output.amount with
    | .error error => (.error error, total)
    | .ok total => (require (total ≤ supply) (.supplySumExceeded total supply), total) := rfl

lemma sumCheck_failsOnly {kind : WireError → Prop}
    (hoverflow : ∀ context, kind (.integerOverflow context))
    (hsupply : ∀ sum, kind (.supplySumExceeded sum supply)) :
    FailsOnly kind (sumCheck supply total index output).1 := by
  rw [sumCheck_apply]
  cases hadd : addDeposit total output.amount with
  | error e => exact .error (addDeposit_failsOnly hoverflow _ _ e hadd)
  | ok sum => exact .require (hsupply sum)

/-- One step of the sum: it is accepted while the exact total is within the supply. -/
lemma sumCheck_eq_ok : (sumCheck supply total index output).1 = .ok () ↔
    total.toNat + output.amount.toNat ≤ supply.toNat := by
  rw [sumCheck_apply]
  cases hadd : addDeposit total output.amount with
  | error e =>
      simp only [reduceCtorEq, false_iff]
      intro hle
      obtain ⟨sum, hsum⟩ := exists_addDeposit_iff.mpr (Nat.lt_of_le_of_lt hle supply.toNat_lt)
      rw [hadd] at hsum
      cases hsum
  | ok sum => rw [require_eq_ok, UInt64.le_iff_toNat_le, addDeposit_eq_ok.mp hadd]

/-- An accepted step takes the exact total over. -/
lemma toNat_sumCheck (h : (sumCheck supply total index output).1 = .ok ()) :
    (sumCheck supply total index output).2.toNat = total.toNat + output.amount.toNat := by
  rw [sumCheck_apply] at h ⊢
  cases hadd : addDeposit total output.amount with
  | error e => simp [hadd] at h
  | ok sum => exact addDeposit_eq_ok.mp hadd

/-- A step that could take the exact total over does not fail for its size. -/
lemma sumCheck_not_overflow {e : WireError}
    (hfits : total.toNat + output.amount.toNat < 2 ^ 64)
    (h : (sumCheck supply total index output).1 = .error e) : ¬ e.IsOverflow := by
  obtain ⟨sum, hsum⟩ := exists_addDeposit_iff.mpr hfits
  simp only [sumCheck_apply, hsum] at h
  obtain ⟨-, rfl⟩ := require_eq_error.mp h
  rintro ⟨context, hroot⟩
  cases hroot

/-- The sum accepts outputs when the exact total of all of them is within the supply: totals only
grow, so that no total before is above it. -/
theorem sumCheck_passes (htotal : total ≤ supply) :
    Validator.Passes (sumCheck supply) total index outputs ↔
      total.toNat + sumAmounts outputs ≤ supply.toNat := by
  induction outputs generalizing total index with
  | nil => simpa [Validator.Passes] using UInt64.le_iff_toNat_le.mp htotal
  | cons output outputs ih =>
      rw [Validator.Passes, sumAmounts_cons]
      constructor
      · rintro ⟨hstep, hrest⟩
        have hnext := toNat_sumCheck hstep
        have hle : (sumCheck supply total index output).2 ≤ supply := by
          rw [UInt64.le_iff_toNat_le, hnext]
          exact sumCheck_eq_ok.mp hstep
        have hrest := (ih hle).mp hrest
        omega
      · intro hsum
        have hstep : (sumCheck supply total index output).1 = .ok () :=
          sumCheck_eq_ok.mpr (by omega)
        have hnext := toNat_sumCheck hstep
        refine ⟨hstep, (ih ?_).mpr (by omega)⟩
        rw [UInt64.le_iff_toNat_le]
        omega

/-- **The sum accepts outputs when all of them together deposit no more than the supply**, as an
exact number. -/
theorem validate_depositSum : validate outputs [depositSum supply] = .ok () ↔
    sumAmounts outputs ≤ supply.toNat := by
  have hrun : validate outputs [depositSum supply] = .ok () ↔
      Validator.Passes (sumCheck supply) 0 0 outputs :=
    Validator.validate_singleton_eq_ok
  have hzero : 0 ≤ supply := UInt64.le_iff_toNat_le.mpr (Nat.zero_le _)
  rw [hrun, sumCheck_passes hzero, UInt64.toNat_zero, Nat.zero_add]

/-- After accepted outputs the total is still within the supply. -/
lemma remembered_sumCheck_le (htotal : total ≤ supply)
    (h : Validator.Passes (sumCheck supply) total index outputs) :
    Validator.remembered (sumCheck supply) total index outputs ≤ supply := by
  induction outputs generalizing total index with
  | nil => exact htotal
  | cons output outputs ih =>
      refine ih ?_ h.2
      rw [UInt64.le_iff_toNat_le, toNat_sumCheck h.1]
      exact sumCheck_eq_ok.mp h.1

/-- **Deposits are added up exactly or not at all.**  The sum succeeds when the exact total fits
into 64 bits, and then yields it. -/
theorem foldlM_addDeposit_eq_ok {sum : UInt64} :
    outputs.foldlM (fun total output => addDeposit total output.amount) total = .ok sum ↔
      sum.toNat = total.toNat + sumAmounts outputs := by
  induction outputs generalizing total with
  | nil => simp [← UInt64.toNat_inj, eq_comm]
  | cons output outputs ih =>
      rw [List.foldlM_cons, bind_eq_ok, sumAmounts_cons]
      simp only [ih]
      constructor
      · rintro ⟨next, hnext, hsum⟩
        rw [hsum, addDeposit_eq_ok.mp hnext, Nat.add_assoc]
      · intro hsum
        have hfits := sum.toNat_lt
        obtain ⟨next, hnext⟩ := @exists_addDeposit_iff total output.amount |>.mpr (by omega)
        exact ⟨next, hnext, by rw [hsum, addDeposit_eq_ok.mp hnext, Nat.add_assoc]⟩

end Output

end UtxoWire
