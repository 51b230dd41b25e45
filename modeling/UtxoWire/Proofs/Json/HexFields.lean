import UtxoWire.Json.Form
import UtxoWire.Proofs.Hex

/-!
# Fields of bytes

Bytes stand in JSON as hexadecimal texts, some of a fixed number of bytes and some of any number.
Such a field is read by the grammar of hexadecimal text: marks in front are dropped, and the rest is
judged as digits.

* `ofJson_marked`, `ofJson_marked_fixed` — marks in front make no difference.
* **`hexFields_grammar`** — what is made of any text, and that what is written is read back, in any
  case and with any marks in front.
-/

namespace UtxoWire.JsonForm

open Hex (Judged Unmarked marked)

variable (place : Place) (marks : Nat) (text : String)

/-- A field of any number of bytes is read from what the marks in front leave. -/
lemma ofJson_marked : (ofJson place (.string (some (marked marks text))) : Except Misfit Bytes)
    = (Hex.decode (Hex.stripMarks (utf8 text))).mapError .hex := by
  rw [← Hex.stripMarks_marked marks text]
  rfl

/-- And so is one of a fixed number. -/
lemma ofJson_marked_fixed (n : Nat) :
    (ofJson place (.string (some (marked marks text))) : Except Misfit (FixedBytes n))
      = (Hex.decodeFixed n (Hex.stripMarks (utf8 text))).mapError .hex := by
  rw [← Hex.stripMarks_marked marks text]
  rfl

/-- **Fields of bytes accept exactly their grammar.**  Every text is some marks and a rest without a
mark in front.  A field of `n` bytes is read if the rest is `2 * n` digits, and one of any number of
bytes if it is digits in pairs; the bytes are those that the digits denote, and what is reported
otherwise is the first thing that is wrong.  What is written for bytes is read as these bytes, with
any number of marks in front and whatever the case of its letters. -/
theorem hexFields_grammar (place : Place) :
    (∀ text, ∃ marks rest, text = marked marks rest ∧ Unmarked rest) ∧
    (∀ marks rest, Unmarked rest →
      (∀ n, ∃ outcome, Judged ((utf8 rest).length = 2 * n) (utf8 rest) FixedBytes.bytes outcome ∧
        (ofJson place (.string (some (marked marks rest))) : Except Misfit (FixedBytes n))
          = outcome.mapError .hex) ∧
      ∃ outcome, Judged True (utf8 rest) id outcome ∧
        (ofJson place (.string (some (marked marks rest))) : Except Misfit Bytes)
          = outcome.mapError .hex) ∧
    ∀ marks (text : String) (bytes : Bytes), text.toList.map Char.toLower = Hex.encode bytes →
      (ofJson place (.string (some (marked marks text))) : Except Misfit Bytes) = .ok bytes ∧
      ∀ n (field : FixedBytes n), field.bytes = bytes →
        ofJson place (.string (some (marked marks text))) = .ok field := by
  refine ⟨Hex.exists_marked, fun marks rest hrest => ⟨fun n => ?_, ?_⟩,
    fun marks text bytes hbytes => ?_⟩
  · refine ⟨_, Hex.decodeFixed_judged n (utf8 rest), ?_⟩
    rw [ofJson_marked_fixed, Hex.stripMarks_of_unmarked hrest]
  · refine ⟨_, Hex.decode_judged (utf8 rest), ?_⟩
    rw [ofJson_marked, Hex.stripMarks_of_unmarked hrest]
  · have hdenotes : Hex.Denotes (utf8 text) bytes := Hex.denotes_of_toLower hbytes
    have hstrip := Hex.stripMarks_of_digits hdenotes.isDigit
    constructor
    · rw [ofJson_marked, hstrip, Hex.decode_eq_ok.mpr hdenotes]
      rfl
    · rintro n field rfl
      have hlength : (utf8 text).length = 2 * n := by
        rw [hdenotes.length_eq, field.length_eq]
      rw [ofJson_marked_fixed, hstrip, Hex.decodeFixed_eq_ok.mpr ⟨hlength, hdenotes⟩]
      rfl

/-- Two marks in front of digits of both cases, and of a field of two bytes with a letter among its
digits that is none. -/
theorem hexFields_grammar_samples :
    (ofJson Place.top (.string (some "0x0xAbF0")) : Except Misfit Bytes) = .ok [0xAB, 0xF0] ∧
    (ofJson Place.top (.string (some "0x0xAbFg")) : Except Misfit (FixedBytes 2))
      = .error (.hex (.badDigit 0x67 3)) := by
  obtain ⟨-, hjudged, hwritten⟩ := hexFields_grammar Place.top
  constructor
  · exact (hwritten 2 "AbF0" [0xAB, 0xF0] rfl).1
  · have hunmarked : Unmarked "AbFg" := show ¬ ['0', 'x'] <+: "AbFg".toList by decide
    have hstray : Hex.FirstStray (utf8 "AbFg") 3 0x67 := by
      refine ⟨rfl, fun hdigit => ?_, ?_⟩
      · obtain ⟨value, hvalue⟩ := Hex.isDigit_iff.mp hdigit
        cases hvalue
      · exact List.forall_mem_cons.mpr ⟨⟨10, .inr rfl⟩, List.forall_mem_cons.mpr ⟨⟨11, .inl rfl⟩,
          List.forall_mem_singleton.mpr ⟨15, .inr rfl⟩⟩⟩
    obtain ⟨outcome, houtcome, hread⟩ := (hjudged 2 "AbFg" hunmarked).1 2
    have hfault := houtcome.stray rfl rfl 3 0x67 hstray
    rw [hfault] at hread
    exact hread

end UtxoWire.JsonForm
