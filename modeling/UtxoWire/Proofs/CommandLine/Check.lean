import UtxoWire.Proofs.Identity
import UtxoWire.Proofs.Transaction.Values

/-!
# Holding a transaction against the rules

Which bytes pass the check of the command line, and what is said of them.  The rules on values are
checked after the transaction has been read under validation, which has established some of them
already; and the sum is taken after the rules have been checked, which bound it.

* `CommandLine.totalsText` — the true totals of a transaction, in words.
* **`CommandLine.checkBytes_eq_ok_iff`** — what passes, the summary of it, and that the summary is
  not kept back for want of a total.
-/

namespace UtxoWire.CommandLine

variable {data : Bytes} {params : ProtocolParameters} {tx : Transaction}

/-- The checks pass on a transaction that was read under validation exactly when it keeps the
limits. -/
lemma syntacticallyValid_iff_of_decode (h : decodeTransaction data params = .ok tx) :
    tx.syntacticallyValid params = .ok () ↔ tx.unsignedPart.WithinLimits params := by
  obtain ⟨-, hform⟩ := (Transaction.reader_reads data _ _).mp (decodeTransaction_eq_ok.mp h)
  obtain ⟨hwell, hencode⟩ := hform.wellFormed
  exact hwell.syntacticallyValid_eq_ok hencode

/-- A transaction by its kind, how many inputs and outputs it has, and what these deposit together,
as a number without bound. -/
def totalsText (tx : Transaction) : String :=
  let inputs := tx.unsignedPart.inputs
  let outputs := tx.unsignedPart.outputs
  s!"{tx.typeName} with {inputs.length} inputs, {outputs.length} outputs, " ++
    s!"{Output.sumAmounts outputs} deposited"

lemma summary_eq {total : UInt64} (h : tx.unsignedPart.totalDeposit = .ok total) :
    summary tx total = "ok: " ++ totalsText tx := by
  simp only [summary, totalsText, UnsignedTransaction.totalDeposit_eq_ok.mp h, String.append_assoc]
  rfl

/-- **The check passes what is a transaction as a whole and keeps the limits.**  It then states the
kind of the transaction, how many inputs and outputs it has, and what they deposit together as an
exact number; once the rules have been checked there always is such a total to state. -/
theorem checkBytes_eq_ok_iff (data : Bytes) (params : ProtocolParameters) :
    (∀ text, checkBytes data params = .ok text ↔
      ∃ tx, (Transaction.codec params).decode .validated data = .ok (tx, data.length) ∧
        tx.unsignedPart.WithinLimits params ∧
        text = "ok: " ++ totalsText tx) ∧
    (∀ tx, decodeTransaction data params = .ok tx → tx.syntacticallyValid params = .ok () →
      ∃ total, tx.unsignedPart.totalDeposit = .ok total) := by
  refine ⟨fun text => ?_, fun tx hdecode hvalid => ?_⟩
  · simp only [checkBytes, bind_eq_ok, wire, mapError_eq_ok, pure_eq_ok, Except.ok.injEq]
    constructor
    · rintro ⟨tx, hdecode, ⟨⟩, hvalid, total, htotal, rfl⟩
      exact ⟨tx, decodeTransaction_eq_ok.mp hdecode,
        (syntacticallyValid_iff_of_decode hdecode).mp hvalid, summary_eq htotal⟩
    · rintro ⟨tx, hdecode, hlimits, rfl⟩
      have hdecode := decodeTransaction_eq_ok.mpr hdecode
      exact ⟨tx, hdecode, (), (syntacticallyValid_iff_of_decode hdecode).mpr hlimits, _,
        hlimits.totalDeposit, summary_eq hlimits.totalDeposit⟩
  · exact ⟨_, ((syntacticallyValid_iff_of_decode hdecode).mp hvalid).totalDeposit⟩

set_option maxRecDepth 2000 in
/-- One input, one output that deposits the whole supply, and one signature. -/
theorem checkBytes_single :
    let data : Bytes := 1 :: 0 :: 1 :: 0 :: List.replicate 34 0
      ++ 1 :: 0 :: 1 :: List.replicate 32 0 ++ 5 :: List.replicate 7 0
      ++ 0 :: 1 :: 0 :: 1 :: List.replicate 96 0
    let params : ProtocolParameters := { tokenSupply := 5 }
    let tx : Transaction := .signed
      { transaction := { inputs := [.utxo default], outputs := [.singleDeposit ⟨default, 5⟩] }
        unlockBlocks := [.signature default] }
    checkBytes data params = .ok "ok: SignedTransaction with 1 inputs, 1 outputs, 5 deposited" ∧
      decodeTransaction data params = .ok tx ∧ tx.syntacticallyValid params = .ok () ∧
      ∃ total, tx.unsignedPart.totalDeposit = .ok total := by
  intro data params tx
  have hdecode : (Transaction.codec params).decode .validated data = .ok (tx, data.length) := rfl
  have hread : decodeTransaction data params = .ok tx := decodeTransaction_eq_ok.mpr hdecode
  have hlimits : tx.unsignedPart.WithinLimits params :=
    { index_le := by decide
      amount_within := by decide
      sum_le := by decide }
  have hvalid := (syntacticallyValid_iff_of_decode hread).mpr hlimits
  obtain ⟨hcheck, htotal⟩ := checkBytes_eq_ok_iff data params
  exact ⟨(hcheck _).mpr ⟨tx, hdecode, hlimits, by decide +kernel⟩, hread, hvalid,
    htotal tx hread hvalid⟩

end UtxoWire.CommandLine
