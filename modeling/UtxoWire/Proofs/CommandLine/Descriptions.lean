import UtxoWire.CommandLine.Run
import UtxoWire.Proofs.Family
import UtxoWire.Proofs.Json.Entities

/-!
# From bytes to a description and back

What the command line says of bytes can be handed back to it.  The members of the description may
stand in another order by then; the command line itself puts them in the order of their keys, so
that the content of a tagged value often comes before the name of its variant.

* `CommandLine.encodeText_of_describes` — a text that describes an object is encoded as the object
  is written.
* **`CommandLine.encodeText_of_decodeBytes`** — to decode under validation and to encode what was
  printed gives the bytes back.
-/

namespace UtxoWire

open JsonForm
open Json (Reordered)

variable {family : Family} {data : Bytes} {mode : Mode} {params : ProtocolParameters}

/-- The parameters have no bearing on what is written. -/
lemma Family.encode_eq (params params' : ProtocolParameters) (family : Family) :
    (family.codec params).encode = (family.codec params').encode := by
  cases family <;> rfl

/-- Under validation an object that is all the bytes is written as these bytes. -/
lemma Family.encode_of_decodeExact {x : family.Object}
    (h : (family.codec params).decodeExact .validated data = .ok x) :
    (family.codec params).encode .validated x = .ok data := by
  obtain ⟨-, hform⟩ := (reader_reads params .validated family data x data.length).mp
    (Codec.decodeExact_eq_ok.mp h)
  rw [List.take_length] at hform
  exact hform.encode .validated

namespace CommandLine

/-- Text whose tree is the description of an object, perhaps with members in another order, is
encoded as that object is written. -/
lemma encodeText_of_describes {x : family.Object} {json : Json} {text : String}
    (hjson : Reordered (toJson x) json) (htext : Json.read text = ⟨json, true⟩)
    (hencode : (family.codec {}).encode mode x = .ok data) :
    encodeText family text mode = .ok data := by
  have hparse : (parse text : Except Misfit family.Object) = .ok x :=
    Lossless.parse_of_reordered (by decide) hjson htext
  rw [encodeText, hparse]
  exact mapError_eq_ok.mpr hencode

lemma decodeBytes_eq_ok {value : Json} {n : Nat} :
    decodeBytes family data mode params = .ok (value, n) ↔
      ∃ x, (family.codec params).decodeExact mode data = .ok x ∧ value = toJson x ∧
        n = data.length := by
  simp only [decodeBytes, bind_eq_ok, wire, mapError_eq_ok, pure_eq_ok, Except.ok.injEq,
    Prod.mk.injEq]
  exact ⟨fun ⟨x, hx, hvalue, hn⟩ => ⟨x, hx, hvalue.symm, hn.symm⟩,
    fun ⟨x, hx, hvalue, hn⟩ => ⟨x, hx, hvalue.symm, hn.symm⟩⟩

/-- **What is decoded under validation can be encoded again.**  All the bytes are taken, and the
description that is printed, with the members of every object in the order of their keys, is encoded
under validation as the same bytes, in either layout.  The parameters are needed for decoding
alone. -/
theorem encodeText_of_decodeBytes (family : Family) (data : Bytes) (params : ProtocolParameters)
    {value : Json} {n : Nat} (h : decodeBytes family data .validated params = .ok (value, n)) :
    n = data.length ∧
      encodeText family value.sortKeys.compactText .validated = .ok data ∧
      encodeText family value.sortKeys.prettyText .validated = .ok data := by
  obtain ⟨x, hdecode, rfl, rfl⟩ := decodeBytes_eq_ok.mp h
  have hencode : (family.codec {}).encode .validated x = .ok data := by
    rw [Family.encode_eq {} params family]
    exact Family.encode_of_decodeExact hdecode
  have hsorted := Json.reordered_sortKeys (toJson x)
  have hplain := hsorted.plain (Lossless.plain x)
  exact ⟨rfl, encodeText_of_describes hsorted hplain.read_compactText hencode,
    encodeText_of_describes hsorted hplain.read_prettyText hencode⟩

/-- A reference unlock block: its content is printed before its variant. -/
theorem encodeText_of_decodeBytes_unlockBlock :
    ∃ value, decodeBytes .unlockBlock [1, 5, 0] .validated {} = .ok (value, 3) ∧
      value.sortKeys.compactText = "\x7b\"block\":\x7b\"reference\":5\x7d,\"type\":\"reference\"\x7d" ∧
      encodeText .unlockBlock value.sortKeys.compactText .validated = .ok [1, 5, 0] := by
  have hdecode : decodeBytes .unlockBlock [1, 5, 0] .validated {}
      = .ok (toJson (UnlockBlock.reference ⟨5⟩), 3) := rfl
  obtain ⟨-, hcompact, -⟩ := encodeText_of_decodeBytes .unlockBlock [1, 5, 0] {} hdecode
  exact ⟨_, hdecode, by decide +kernel, hcompact⟩

end CommandLine

end UtxoWire
