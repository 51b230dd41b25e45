import UtxoWire.Proofs.Json.Entities

/-!
# From a value to its text and back

What is written of a value in JSON is read as that value, in either layout.  It does not matter
whether the value could be written as bytes, or how many inputs, outputs or unlock blocks there are.

* `ReadBack` — the values of a type are read back from their texts.
* `Lossless.readBack` — so are those whose descriptions lose nothing and are not nested too deeply.
* `ReadBack.print_injective` — different values have different texts.
* **`JsonForm.parse_print`** — addresses, inputs, outputs, signatures, unlock blocks, transactions
  and protocol parameters are read back.
-/

namespace UtxoWire

open JsonForm

/-- Every value of the type is read back from its text, in either layout. -/
def ReadBack (α : Type) [JsonForm α] : Prop :=
  ∀ value : α, parse (print value) = .ok value ∧ parse (toJson value).prettyText = .ok value

section

variable {α : Type} [JsonForm α]

/-- What loses nothing as a tree loses nothing as a text, as long as there is room for it. -/
lemma Lossless.readBack {depth : Nat} [Lossless α depth] (hdepth : depth ≤ Place.top.room) :
    ReadBack α := by
  intro value
  have hplain : Json.Plain depth (toJson value) := Lossless.plain value
  have hsame : Json.Reordered (toJson value) (toJson value) := .same _
  exact ⟨Lossless.parse_of_reordered hdepth hsame hplain.read_compactText,
    Lossless.parse_of_reordered hdepth hsame hplain.read_prettyText⟩

/-- Different values have different texts. -/
lemma ReadBack.print_injective (h : ReadBack α) :
    Function.Injective fun value : α => print value := by
  intro value value' hprint
  dsimp only at hprint
  have hread : parse (print value') = .ok value := hprint ▸ (h value).1
  rw [(h value').1, Except.ok.injEq] at hread
  exact hread.symm

end

/-- A payload that is there but empty is not taken for one that is missing. -/
lemma UnsignedTransaction.print_emptyPayload_ne (tx : UnsignedTransaction) :
    print { tx with payload := none } ≠ print { tx with payload := some [] } := by
  intro hprint
  have hread : ReadBack UnsignedTransaction := Lossless.readBack (by decide)
  have hsame := hread.print_injective hprint
  cases congrArg UnsignedTransaction.payload hsame

/-- **Descriptions lose nothing.**  Whatever is described in JSON is read back from its text as
exactly what it was, be it valid or not.  In particular all amounts of 64 bits are exact, a payload
that is there but empty is told apart from one that is missing, and the marks that are dropped in
front of the digits of a field of bytes are never digits that were written. -/
theorem JsonForm.parse_print :
    (ReadBack Ed25519Address ∧ ReadBack Address ∧ ReadBack Input ∧ ReadBack Output ∧
      ReadBack Signature ∧ ReadBack UnlockBlock ∧ ReadBack UnsignedTransaction ∧
      ReadBack SignedTransaction ∧ ReadBack Transaction ∧ ReadBack ProtocolParameters) ∧
    ReadBack UInt64 ∧
    (∀ tx : UnsignedTransaction,
      print { tx with payload := none } ≠ print { tx with payload := some [] }) ∧
    ∀ bytes : Bytes, Hex.stripMarks (utf8 (Hex.text bytes)) = utf8 (Hex.text bytes) := by
  refine ⟨⟨?_, ?_, ?_, ?_, ?_, ?_, ?_, ?_, ?_, ?_⟩, ?_, UnsignedTransaction.print_emptyPayload_ne,
    Hex.stripMarks_text⟩
  all_goals exact Lossless.readBack (by decide)

end UtxoWire
