import UtxoWire.Proofs.Transaction.Encodable
import UtxoWire.Proofs.Validator.Values

/-!
# The rules on values

What can be said of a transaction without the ledger: which output indices and amounts are allowed,
and that no output is spent and no address deposited to twice.  The checks run item by item and keep
their sum in 64 bits; what they decide is a statement about whole lists and numbers without bound.

* `UnsignedTransaction.WithinLimits` — the rules that look at the limits of the network.
* `UnsignedTransaction.ValueRules` — all the rules on values.
* `UnsignedTransaction.totalDeposit_eq_ok` — what the outputs deposit together.
* **`UnsignedTransaction.syntacticallyValid_iff`** — the checks decide the rules, the total is exact,
  and no sum overflows as long as twice the supply fits into 64 bits.
* **`Transaction.WellFormed.syntacticallyValid_eq_ok`** — once a transaction has been read under
  validation, the limits alone are left to check.
-/

namespace UtxoWire

namespace UnsignedTransaction

variable {params : ProtocolParameters} {tx : UnsignedTransaction}

/-- The rules that look at the limits of the network: no output index is above the highest allowed,
no amount is zero or above the supply, and all amounts together are not above it either. -/
structure WithinLimits (params : ProtocolParameters) (tx : UnsignedTransaction) : Prop where
  index_le : ∀ input ∈ tx.inputs, input.outputIndex ≤ params.maxUtxoIndex
  amount_within : ∀ output ∈ tx.outputs, 1 ≤ output.amount ∧ output.amount ≤ params.tokenSupply
  sum_le : Output.sumAmounts tx.outputs ≤ params.tokenSupply.toNat

/-- The rules on values: the limits are kept, no output is spent twice, and no address is deposited
to twice. -/
structure ValueRules (params : ProtocolParameters) (tx : UnsignedTransaction) : Prop extends
    WithinLimits params tx where
  outpoints_nodup : (tx.inputs.map Input.outpoint).Nodup
  addresses_nodup : (tx.outputs.map Output.address).Nodup

/-! ## What passes -/

lemma syntacticallyValid_eq_ok : tx.syntacticallyValid params = .ok () ↔ tx.ValueRules params := by
  rw [syntacticallyValid, check_bind_eq_ok, Validator.validate_cons_eq_ok,
    Validator.validate_cons_eq_ok, Validator.validate_cons_eq_ok, Input.validate_referenceBounds,
    Input.validate_uniqueReferences, Input.nodup_reference_iff, Output.validate_uniqueAddresses,
    Output.validate_depositAmounts, Output.validate_depositSum]
  constructor
  · rintro ⟨⟨hindex, hinputs⟩, houtputs, hamount, hsum⟩
    exact ⟨⟨hindex, hamount, hsum⟩, hinputs, houtputs⟩
  · rintro ⟨⟨hindex, hamount, hsum⟩, hinputs, houtputs⟩
    exact ⟨⟨hindex, hinputs⟩, houtputs, hamount, hsum⟩

/-- The total is exact, whenever there is one. -/
lemma totalDeposit_eq_ok {total : UInt64} :
    tx.totalDeposit = .ok total ↔ total.toNat = Output.sumAmounts tx.outputs := by
  rw [totalDeposit, Output.foldlM_addDeposit_eq_ok, UInt64.toNat_zero, Nat.zero_add]

/-- Amounts that stay within the supply have a total. -/
lemma WithinLimits.totalDeposit (h : tx.WithinLimits params) :
    tx.totalDeposit = .ok (UInt64.ofNat (Output.sumAmounts tx.outputs)) :=
  totalDeposit_eq_ok.mpr
    (UInt64.toNat_ofNat_of_lt' (Nat.lt_of_le_of_lt h.sum_le params.tokenSupply.toNat_lt))

/-! ## Overflow -/

lemma inputs_not_overflow {inputs : List Input} {max : UInt16} {e : WireError}
    (h : validate inputs [Input.referenceBounds max, Input.uniqueReferences] = .error e) :
    ¬ e.IsOverflow := by
  have hfails : FailsOnly (fun e => ¬ e.IsOverflow)
      (validate inputs [Input.referenceBounds max, Input.uniqueReferences]) := by
    refine Validator.validate_failsOnly fun v hv => .inr fun state i input _ => ?_
    rcases List.mem_pair.mp hv with rfl | rfl
    · exact Input.boundsCheck_failsOnly nofun
    · exact Validator.unique_failsOnly (.ok _) fun _ => nofun
  exact hfails e h

/-- The sum is looked at after the amount itself, and both the total so far and the amount are then
within the supply. -/
lemma outputs_not_overflow {outputs : List Output} {supply : UInt64} {e : WireError}
    (hsupply : supply.toNat < 2 ^ 63)
    (h : validate outputs [Output.uniqueAddresses, Output.depositAmounts supply,
      Output.depositSum supply] = .error e) : ¬ e.IsOverflow := by
  have hzero : 0 ≤ supply := UInt64.le_iff_toNat_le.mpr (Nat.zero_le _)
  obtain ⟨seen, output, rest, before, v, after, -, hsplit, hpasses, haccept, hrefuse⟩ :=
    Validator.refusal_of_runFrom_eq_error h
  rcases before with _ | ⟨_, _ | ⟨_, _ | ⟨_, before⟩⟩⟩
  case nil =>
    obtain ⟨rfl, rfl⟩ := List.cons.inj hsplit
    obtain ⟨first, rfl⟩ := Validator.duplicate_of_uniqueCheck hrefuse
    exact nofun
  case cons.nil =>
    simp only [List.cons_append, List.nil_append, List.cons.injEq] at hsplit
    obtain ⟨rfl, rfl, rfl⟩ := hsplit
    have hfails : FailsOnly (fun e => ¬ e.IsOverflow)
        (Output.amountCheck supply () (0 + seen.length) output).1 :=
      Output.amountCheck_failsOnly nofun nofun
    exact hfails e hrefuse
  case cons.cons.nil =>
    simp only [List.cons_append, List.nil_append, List.cons.injEq] at hsplit
    obtain ⟨rfl, rfl, rfl, rfl⟩ := hsplit
    have hamount := haccept (Output.depositAmounts supply) (by simp)
    have hsum := hpasses (Output.depositSum supply) (by simp)
    have hamount := (Output.amountCheck_eq_ok.mp hamount).2
    have htotal := Output.remembered_sumCheck_le hzero hsum
    rw [UInt64.le_iff_toNat_le] at hamount htotal
    have hfits : (Validator.remembered (Output.sumCheck supply) 0 0 seen).toNat
        + output.amount.toNat < 2 ^ 64 := by omega
    exact Output.sumCheck_not_overflow hfits hrefuse
  case cons.cons.cons =>
    simp at hsplit

lemma syntacticallyValid_not_overflow (hsupply : params.tokenSupply.toNat < 2 ^ 63) {e : WireError}
    (h : tx.syntacticallyValid params = .error e) : ¬ e.IsOverflow := by
  rcases bind_eq_error.mp h with hinputs | ⟨_, -, houtputs⟩
  · exact inputs_not_overflow hinputs
  · exact outputs_not_overflow hsupply houtputs

/-- **The checks decide the rules on values.**  They pass exactly when the rules hold, which speak
of whole lists and of sums without bound.  Then the total is the exact sum.  And as long as twice
the supply fits into 64 bits, they never fail because a sum does not. -/
theorem syntacticallyValid_iff (params : ProtocolParameters) (tx : UnsignedTransaction) :
    (tx.syntacticallyValid params = .ok () ↔ tx.ValueRules params) ∧
    (tx.syntacticallyValid params = .ok () →
      ∃ total, tx.totalDeposit = .ok total ∧ total.toNat = Output.sumAmounts tx.outputs) ∧
    (params.tokenSupply.toNat < 2 ^ 63 →
      ∀ e, tx.syntacticallyValid params = .error e → ¬ e.IsOverflow) := by
  refine ⟨syntacticallyValid_eq_ok, fun h => ?_, fun hsupply e => ?_⟩
  · have htotal := (syntacticallyValid_eq_ok.mp h).toWithinLimits.totalDeposit
    exact ⟨_, htotal, totalDeposit_eq_ok.mp htotal⟩
  · exact syntacticallyValid_not_overflow hsupply

/-- Two outputs that deposit the whole supply together, and two whose sum is beyond 64 bits. -/
theorem syntacticallyValid_iff_two :
    let deposit (key : UInt8) (amount : UInt64) : Output :=
      .singleDeposit ⟨.ed25519 ⟨⟨List.replicate 32 key, rfl⟩⟩, amount⟩
    let params : ProtocolParameters := { tokenSupply := 12 }
    let tx : UnsignedTransaction :=
      { inputs := [.utxo ⟨default, 125⟩], outputs := [deposit 2 5, deposit 1 7] }
    let huge : UnsignedTransaction := { outputs := [deposit 2 5, deposit 1 0xFFFFFFFFFFFFFFFF] }
    (tx.syntacticallyValid params = .ok () ∧
      ∃ total, tx.totalDeposit = .ok total ∧ total.toNat = 12) ∧
    (params.tokenSupply.toNat < 2 ^ 63 ∧
      ∃ e, huge.syntacticallyValid params = .error e ∧ ¬ e.IsOverflow) := by
  intro deposit params tx huge
  obtain ⟨hrules, htotal, -⟩ := syntacticallyValid_iff params tx
  obtain ⟨-, -, hoverflow⟩ := syntacticallyValid_iff params huge
  have hvalid : tx.syntacticallyValid params = .ok () := hrules.mpr
    { index_le := by decide
      amount_within := by decide
      sum_le := by decide
      outpoints_nodup := by decide
      addresses_nodup := by decide }
  have hhuge : huge.syntacticallyValid params
      = .error (.supplyExceeded 1 0xFFFFFFFFFFFFFFFF 12) := by decide +kernel
  exact ⟨⟨hvalid, htotal hvalid⟩, by decide, _, hhuge, hoverflow (by decide) _ hhuge⟩

/-! ## After reading -/

/-- Of a well-formed transaction the limits are all that is left to check. -/
lemma WellFormed.valueRules_iff {bounds : ProtocolParameters} (h : tx.WellFormed bounds) :
    tx.ValueRules params ↔ tx.WithinLimits params := by
  refine ⟨fun hrules => hrules.toWithinLimits, fun hlimits => ⟨hlimits, ?_, h.addresses_nodup⟩⟩
  exact Input.nodup_reference_iff.mp (nodup_reference_of_ascending h.inputs_ascending)

end UnsignedTransaction

/-- The checks pass on a well-formed transaction that can be written exactly when the limits are
kept: what else they ask, of unlock blocks too, has been established by then. -/
theorem Transaction.WellFormed.syntacticallyValid_eq_ok {params bounds : ProtocolParameters}
    {tx : Transaction} {bytes : Bytes} (h : tx.WellFormed bounds)
    (hbytes : tx.encode .structural = .ok bytes) :
    tx.syntacticallyValid params = .ok () ↔ tx.unsignedPart.WithinLimits params := by
  cases tx with
  | unsigned tx =>
      exact UnsignedTransaction.syntacticallyValid_eq_ok.trans
        (UnsignedTransaction.WellFormed.valueRules_iff h)
  | signed tx =>
      obtain ⟨-, b, hb, -⟩ := SignedTransaction.encode_eq_ok.mp hbytes
      have hunlock := SignedTransaction.WellFormed.check h hb
      rw [syntacticallyValid, SignedTransaction.syntacticallyValid, check_bind_eq_ok, hunlock,
        UnsignedTransaction.syntacticallyValid_eq_ok, h.transaction.valueRules_iff]
      exact and_iff_left rfl

end UtxoWire
