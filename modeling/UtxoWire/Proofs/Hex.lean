import Mathlib.Tactic.IntervalCases
import UtxoWire.Hex
import UtxoWire.Proofs.Outcome

/-!
# The grammar of hexadecimal text

Which texts are hexadecimal, what they denote, and what is reported of those that are not.  Marks in
front are dropped first, as long as there are any.  All the rest is digits of either case, two a
byte.  What is written for bytes is read as those bytes, for the marks that are dropped are nothing
that is ever written: an `x` is no digit.

* `IsDigitOf` — the digits, in lower case and in capitals, and their values.
* `Denotes` — the bytes that digits denote, two digits a byte.
* `FirstStray` — the first byte of a text that is no digit, and its place.
* `Judged` — what is read from digits, or reported of them, and which report comes first.
* **`decode_judged`**, **`decodeFixed_judged`** — fields of any and of a fixed number of bytes.
* `marked` — a text with marks in front; every text is one (`exists_marked`), and reading drops them
  (`stripMarks_marked`).
* `denotes_of_toLower` — what is written for bytes denotes them, whatever the case of its letters.
* **`decode_text`**, **`decodeFixed_text`** — what is written can be read back.
-/

namespace UtxoWire.Hex

/-! ## Digits -/

/-- The byte that a digit is written as. -/
def digitByte (value : Nat) : UInt8 :=
  UInt8.ofNat (digit value).toNat

lemma digitValue?_digitByte {value : Nat} (h : value < 16) :
    digitValue? (digitByte value) = some value := by
  interval_cases value <;> rfl

lemma utf8EncodeChar_digit {value : Nat} (h : value < 16) :
    String.utf8EncodeChar (digit value) = [digitByte value] := by
  interval_cases value <;> rfl

lemma toNat_digit {value : Nat} (h : value < 16) :
    (digit value).toNat = if value < 10 then 48 + value else 87 + value := by
  interval_cases value <;> rfl

/-- The byte is the digit of a value, in lower case or in capitals. -/
def IsDigitOf (byte : UInt8) (value : Nat) : Prop :=
  (utf8 "0123456789abcdef")[value]? = some byte ∨ (utf8 "0123456789ABCDEF")[value]? = some byte

/-- A digit of either case. -/
def IsDigit (byte : UInt8) : Prop :=
  ∃ value, IsDigitOf byte value

lemma IsDigitOf.lt {byte : UInt8} {value : Nat} (h : IsDigitOf byte value) : value < 16 := by
  rcases h with h | h
  all_goals exact (List.getElem?_eq_some_iff.mp h).1

/-- The digits that are read are those of the two alphabets. -/
theorem digitValue?_eq_some_iff {byte : UInt8} {value : Nat} :
    digitValue? byte = some value ↔ IsDigitOf byte value := by
  constructor
  · intro h
    have hbyte : byte = UInt8.ofNat byte.toNat := UInt8.ofNat_toNat.symm
    unfold digitValue? at h
    dsimp only at h
    generalize byte.toNat = code at h hbyte
    subst hbyte
    split at h
    case isTrue hdecimal =>
      obtain ⟨hlow, hhigh⟩ := hdecimal
      cases h
      interval_cases code <;> exact .inl rfl
    case isFalse =>
      split at h
      case isTrue hletter =>
        obtain ⟨hlow, hhigh⟩ := hletter
        cases h
        interval_cases code <;> exact .inl rfl
      case isFalse =>
        split at h
        case isTrue hcapital =>
          obtain ⟨hlow, hhigh⟩ := hcapital
          cases h
          interval_cases code <;> exact .inr rfl
        case isFalse => cases h
  · intro h
    have hlt := h.lt
    rcases h with h | h
    all_goals
      interval_cases value
      all_goals
        cases h
        rfl

lemma isDigit_iff {byte : UInt8} : IsDigit byte ↔ ∃ value, digitValue? byte = some value :=
  exists_congr fun _ => digitValue?_eq_some_iff.symm

lemma isDigitOf_digitByte {value : Nat} (h : value < 16) : IsDigitOf (digitByte value) value :=
  digitValue?_eq_some_iff.mp (digitValue?_digitByte h)

/-- The digits denote the bytes: two digits a byte, the high half first. -/
inductive Denotes : Bytes → Bytes → Prop
  | nil : Denotes [] []
  | cons {a b : UInt8} {high low : Nat} {digits bytes : Bytes} : IsDigitOf a high →
      IsDigitOf b low → Denotes digits bytes →
      Denotes (a :: b :: digits) (UInt8.ofNat (16 * high + low) :: bytes)

/-- The first byte that is no digit is `stray`, at place `i`. -/
structure FirstStray (digits : Bytes) (i : Nat) (stray : UInt8) : Prop where
  getElem?_eq : digits[i]? = some stray
  not_digit : ¬ IsDigit stray
  digits_before : ∀ b ∈ digits.take i, IsDigit b

lemma Denotes.length_eq {digits bytes : Bytes} (h : Denotes digits bytes) :
    digits.length = 2 * bytes.length := by
  induction h with
  | nil => rfl
  | cons _ _ _ ih =>
      rw [List.length_cons, List.length_cons, List.length_cons, ih]
      omega

lemma Denotes.isDigit {digits bytes : Bytes} (h : Denotes digits bytes) :
    ∀ b ∈ digits, IsDigit b := by
  induction h with
  | nil => exact List.forall_mem_nil _
  | cons ha hb _ ih =>
      exact List.forall_mem_cons.mpr ⟨⟨_, ha⟩, List.forall_mem_cons.mpr ⟨⟨_, hb⟩, ih⟩⟩

/-- Digits in pairs denote something. -/
lemma exists_denotes : ∀ {digits : Bytes}, digits.length % 2 = 0 →
    (∀ b ∈ digits, IsDigit b) → ∃ bytes, Denotes digits bytes
  | [], _, _ => ⟨[], .nil⟩
  | [_], heven, _ => absurd heven Nat.one_ne_zero
  | a :: b :: digits, heven, hdigits => by
      obtain ⟨⟨high, ha⟩, hdigits⟩ := List.forall_mem_cons.mp hdigits
      obtain ⟨⟨low, hb⟩, hdigits⟩ := List.forall_mem_cons.mp hdigits
      rw [List.length_cons, List.length_cons, Nat.add_assoc, Nat.add_mod_right] at heven
      obtain ⟨bytes, hbytes⟩ := exists_denotes heven hdigits
      exact ⟨_, .cons ha hb hbytes⟩

/-! ## Reading digits -/

lemma readDigit_eq_ok {position : Nat} {byte : UInt8} {value : Nat} :
    readDigit position byte = .ok value ↔ IsDigitOf byte value := by
  rw [readDigit, ← digitValue?_eq_some_iff]
  cases digitValue? byte with
  | none => exact iff_of_false nofun nofun
  | some value' => simp

lemma readDigit_of_stray {position : Nat} {byte : UInt8} (h : ¬ IsDigit byte) :
    readDigit position byte = .error (.badDigit byte position) := by
  have hnone : digitValue? byte = none :=
    Option.eq_none_iff_forall_ne_some.mpr fun value hvalue => h (isDigit_iff.mpr ⟨value, hvalue⟩)
  rw [readDigit, hnone]

/-- Pairs of digits are read as the bytes that they denote. -/
lemma decodePairs_eq_ok : ∀ {position : Nat} {digits bytes : Bytes},
    decodePairs position digits = .ok bytes ↔ Denotes digits bytes
  | position, [], bytes => by
      constructor
      · intro h
        cases h
        exact .nil
      · intro h
        cases h
        rfl
  | position, [_], bytes => iff_of_false nofun nofun
  | position, a :: b :: digits, bytes => by
      simp only [decodePairs, bind_eq_ok, readDigit_eq_ok, decodePairs_eq_ok, pure_eq_ok,
        Except.ok.injEq]
      constructor
      · rintro ⟨high, ha, low, hb, rest, hrest, rfl⟩
        exact .cons ha hb hrest
      · intro h
        cases h with
        | cons ha hb hrest => exact ⟨_, ha, _, hb, _, hrest, rfl⟩

/-- The first stray byte ends the reading of pairs; its place is counted from the first of them. -/
lemma decodePairs_of_firstStray : ∀ {position i : Nat} {digits : Bytes} {stray : UInt8},
    digits.length % 2 = 0 → FirstStray digits i stray →
    decodePairs position digits = .error (.badDigit stray (position + i))
  | _, _, [], _, _, h => nomatch h.getElem?_eq
  | _, _, [_], _, heven, _ => absurd heven Nat.one_ne_zero
  | position, 0, a :: b :: digits, stray, _, h => by
      obtain rfl : a = stray := Option.some.inj h.getElem?_eq
      rw [decodePairs, readDigit_of_stray h.not_digit]
      rfl
  | position, 1, a :: b :: digits, stray, _, h => by
      obtain rfl : b = stray := Option.some.inj h.getElem?_eq
      obtain ⟨high, ha⟩ := h.digits_before a List.mem_cons_self
      rw [decodePairs, readDigit_eq_ok.mpr ha, ok_bind, readDigit_of_stray h.not_digit]
      rfl
  | position, i + 2, a :: b :: digits, stray, heven, h => by
      obtain ⟨⟨high, ha⟩, hbefore⟩ := List.forall_mem_cons.mp h.digits_before
      obtain ⟨⟨low, hb⟩, hbefore⟩ := List.forall_mem_cons.mp hbefore
      rw [List.length_cons, List.length_cons, Nat.add_assoc, Nat.add_mod_right] at heven
      have hrest : FirstStray digits i stray := ⟨h.getElem?_eq, h.not_digit, hbefore⟩
      rw [decodePairs, readDigit_eq_ok.mpr ha, ok_bind, readDigit_eq_ok.mpr hb, ok_bind,
        decodePairs_of_firstStray heven hrest, error_bind, Nat.add_right_comm position 2 i]
      rfl

/-! ## What is reported -/

/-- What is read from digits, or reported of them.  They are read if they pair up, there is the right
number of them, and all of them are digits.  The first of these that fails is reported; a byte that
is no digit with its place, the first if there are several. -/
structure Judged {α : Type} (fits : Prop) (digits : Bytes) (content : α → Bytes)
    (outcome : Except Fault α) : Prop where
  ok_iff : ∀ value, outcome = .ok value ↔ fits ∧ Denotes digits (content value)
  exists_ok_iff : (∃ value, outcome = .ok value) ↔
    fits ∧ digits.length % 2 = 0 ∧ ∀ b ∈ digits, IsDigit b
  odd : digits.length % 2 = 1 → outcome = .error .oddLength
  unfit : digits.length % 2 = 0 → ¬ fits → outcome = .error .wrongLength
  stray : digits.length % 2 = 0 → fits → ∀ i stray, FirstStray digits i stray →
    outcome = .error (.badDigit stray i)

section

variable {digits : Bytes}

lemma Denotes.even {bytes : Bytes} (h : Denotes digits bytes) : digits.length % 2 = 0 := by
  rw [h.length_eq, Nat.mul_mod_right]

lemma decode_of_even (h : digits.length % 2 = 0) : decode digits = decodePairs 0 digits :=
  if_neg (by omega)

lemma decode_eq_ok {bytes : Bytes} : decode digits = .ok bytes ↔ Denotes digits bytes := by
  by_cases heven : digits.length % 2 = 0
  · rw [decode_of_even heven, decodePairs_eq_ok]
  · rw [decode, if_pos (by omega)]
    exact iff_of_false nofun fun h => heven h.even

variable {n : Nat}

lemma decodeFixed_of_pairs {field : FixedBytes n} (hlength : digits.length = 2 * n)
    (h : decodePairs 0 digits = .ok field.bytes) : decodeFixed n digits = .ok field := by
  rw [decodeFixed, if_neg (by omega), if_neg (by omega), h, ok_bind, FixedBytes.ofBytes?_bytes]

lemma decodeFixed_of_pairs_error {fault : Fault} (hlength : digits.length = 2 * n)
    (h : decodePairs 0 digits = .error fault) : decodeFixed n digits = .error fault := by
  rw [decodeFixed, if_neg (by omega), if_neg (by omega), h, error_bind]

lemma decodeFixed_of_unfit (heven : digits.length % 2 = 0) (h : digits.length ≠ 2 * n) :
    decodeFixed n digits = .error .wrongLength := by
  rw [decodeFixed, if_neg (by omega), if_pos (by omega)]

lemma Denotes.length_eq_of_fits {bytes : Bytes} (h : Denotes digits bytes)
    (hlength : digits.length = 2 * n) : bytes.length = n := by
  have := h.length_eq
  omega

lemma decodeFixed_eq_ok {field : FixedBytes n} :
    decodeFixed n digits = .ok field ↔ digits.length = 2 * n ∧ Denotes digits field.bytes := by
  constructor
  · intro h
    have heven : digits.length % 2 = 0 := by
      by_contra hodd
      rw [decodeFixed, if_pos (by omega)] at h
      cases h
    have hlength : digits.length = 2 * n := by
      by_contra hunfit
      rw [decodeFixed_of_unfit heven hunfit] at h
      cases h
    cases hpairs : decodePairs 0 digits with
    | error fault =>
        rw [decodeFixed_of_pairs_error hlength hpairs] at h
        cases h
    | ok bytes =>
        have hbytes := decodePairs_eq_ok.mp hpairs
        obtain ⟨field', rfl⟩ : ∃ field' : FixedBytes n, field'.bytes = bytes :=
          ⟨⟨bytes, hbytes.length_eq_of_fits hlength⟩, rfl⟩
        rw [decodeFixed_of_pairs hlength hpairs] at h
        cases h
        exact ⟨hlength, hbytes⟩
  · rintro ⟨hlength, h⟩
    exact decodeFixed_of_pairs hlength (decodePairs_eq_ok.mpr h)

end

/-- **A field of any number of bytes.** -/
theorem decode_judged (digits : Bytes) : Judged True digits id (decode digits) where
  ok_iff value := by
    rw [decode_eq_ok, id, true_and]
  exists_ok_iff := by
    simp only [decode_eq_ok, true_and]
    constructor
    · rintro ⟨bytes, h⟩
      exact ⟨h.even, h.isDigit⟩
    · rintro ⟨heven, hdigits⟩
      exact exists_denotes heven hdigits
  odd hodd := if_pos hodd
  unfit _ hunfit := absurd trivial hunfit
  stray heven _ i stray hstray := by
    rw [decode_of_even heven, decodePairs_of_firstStray heven hstray, Nat.zero_add]

/-- **A field of a fixed number of bytes.** -/
theorem decodeFixed_judged (n : Nat) (digits : Bytes) :
    Judged (digits.length = 2 * n) digits FixedBytes.bytes (decodeFixed n digits) where
  ok_iff _ := decodeFixed_eq_ok
  exists_ok_iff := by
    simp only [decodeFixed_eq_ok]
    constructor
    · rintro ⟨field, hlength, h⟩
      exact ⟨hlength, h.even, h.isDigit⟩
    · rintro ⟨hlength, heven, hdigits⟩
      obtain ⟨bytes, hbytes⟩ := exists_denotes heven hdigits
      exact ⟨⟨bytes, hbytes.length_eq_of_fits hlength⟩, hlength, hbytes⟩
  odd hodd := if_pos hodd
  unfit := decodeFixed_of_unfit
  stray heven hfits i stray hstray := by
    rw [decodeFixed_of_pairs_error hfits (decodePairs_of_firstStray heven hstray), Nat.zero_add]

/-! ## Marks -/

/-- Digits leave no room for a mark. -/
lemma stripMarks_of_digits {digits : Bytes} (h : ∀ d ∈ digits, IsDigit d) :
    stripMarks digits = digits := by
  unfold stripMarks
  split
  case h_1 rest =>
    obtain ⟨value, hvalue⟩ := isDigit_iff.mp (h 0x78 (by simp))
    cases hvalue
  case h_2 => rfl

/-- The text with marks in front. -/
def marked : (marks : Nat) → String → String
  | 0, text => text
  | marks + 1, text => "0x" ++ marked marks text

/-- There is no mark in front of the text. -/
def Unmarked (text : String) : Prop :=
  ¬ ['0', 'x'] <+: text.toList

/-- Every text is a text without a mark in front, with marks in front of it. -/
lemma exists_marked_ofList (chars : List Char) :
    ∃ marks rest, String.ofList chars = marked marks rest ∧ Unmarked rest := by
  by_cases hmark : ['0', 'x'] <+: chars
  · obtain ⟨chars', rfl⟩ := hmark
    obtain ⟨marks, rest, hrest, hunmarked⟩ := exists_marked_ofList chars'
    refine ⟨marks + 1, rest, ?_, hunmarked⟩
    rw [String.ofList_append, hrest]
    rfl
  · refine ⟨0, String.ofList chars, rfl, ?_⟩
    rwa [Unmarked, String.toList_ofList]
termination_by chars.length

theorem exists_marked (text : String) : ∃ marks rest, text = marked marks rest ∧ Unmarked rest := by
  obtain ⟨marks, rest, hrest, hunmarked⟩ := exists_marked_ofList text.toList
  exact ⟨marks, rest, by rwa [String.ofList_toList] at hrest, hunmarked⟩

lemma utf8_marked_succ (marks : Nat) (text : String) :
    utf8 (marked (marks + 1) text) = 0x30 :: 0x78 :: utf8 (marked marks text) := by
  rw [marked, utf8, String.toList_append, List.flatMap_append]
  rfl

/-- Marks in front are dropped. -/
lemma stripMarks_marked (marks : Nat) (text : String) :
    stripMarks (utf8 (marked marks text)) = stripMarks (utf8 text) := by
  induction marks with
  | zero => rfl
  | succ marks ih => rw [utf8_marked_succ, stripMarks, ih]

/-- A byte below 128 at the front is a character of its own. -/
lemma eq_of_utf8_eq_cons {char : Char} {chars : List Char} {b : UInt8} {bytes : Bytes}
    (hb : b.toNat < 128) (h : (char :: chars).flatMap String.utf8EncodeChar = b :: bytes) :
    char = Char.ofNat b.toNat ∧ chars.flatMap String.utf8EncodeChar = bytes := by
  rw [List.flatMap_cons] at h
  unfold String.utf8EncodeChar at h
  dsimp only at h
  split at h
  case isTrue hsmall =>
    cases h
    have hchar : char.val.toNat % 256 = char.toNat := Nat.mod_eq_of_lt (by omega)
    exact ⟨by rw [UInt8.toNat_ofNat', hchar, Char.ofNat_toNat], rfl⟩
  case isFalse =>
    -- a character of several bytes starts with a byte from 192 on
    exfalso
    split at h
    all_goals try split at h
    all_goals
      have hhead := congrArg UInt8.toNat (List.cons.inj h).1
      rw [UInt8.toNat_ofNat'] at hhead
      omega

/-- Where there is no mark in front, nothing is dropped. -/
lemma stripMarks_of_unmarked {text : String} (h : Unmarked text) :
    stripMarks (utf8 text) = utf8 text := by
  unfold stripMarks
  split
  case h_2 => rfl
  case h_1 bytes hbytes =>
    exfalso
    rw [utf8] at hbytes
    cases hchars : text.toList with
    | nil =>
        rw [hchars] at hbytes
        cases hbytes
    | cons first chars =>
        rw [hchars] at hbytes
        obtain ⟨hfirst, hrest⟩ := eq_of_utf8_eq_cons (by decide) hbytes
        cases chars with
        | nil => cases hrest
        | cons second chars =>
            obtain ⟨hsecond, -⟩ := eq_of_utf8_eq_cons (by decide) hrest
            refine h ⟨chars, ?_⟩
            rw [hchars, hfirst, hsecond]
            rfl

/-! ## Digits in any case -/

/-- A character that becomes a digit in lower case is a digit of the same value. -/
lemma utf8EncodeChar_of_toLower {char : Char} {value : Nat} (hvalue : value < 16)
    (h : char.toLower = digit value) :
    ∃ byte, String.utf8EncodeChar char = [byte] ∧ IsDigitOf byte value := by
  by_cases hcapital : char.val ≥ 'A'.val ∧ char.val ≤ 'Z'.val
  · -- only letters have capitals, and those of the letters among the digits are digits
    have hlower : char.toLower.val = char.val + 32 := congrArg Char.val (dif_pos hcapital)
    have hlow : 65 ≤ char.toNat := hcapital.1
    have hhigh : char.toNat ≤ 90 := hcapital.2
    have hsum : (char.val + 32).toNat = char.toNat + 32 := by
      rw [UInt32.toNat_add]
      exact Nat.mod_eq_of_lt (show char.toNat + 32 < 2 ^ 32 by omega)
    have hcode : char.toNat + 32 = (digit value).toNat := by
      rw [← hsum, ← hlower, h]
      rfl
    rw [toNat_digit hvalue] at hcode
    have hletter : 10 ≤ value := by
      by_contra hsmall
      rw [if_pos (by omega)] at hcode
      omega
    rw [if_neg (by omega)] at hcode
    have hchar : char = Char.ofNat (55 + value) := by
      rw [← Char.ofNat_toNat char]
      congr 1
      omega
    subst hchar
    interval_cases value <;> exact ⟨_, rfl, .inr rfl⟩
  · have hsame : char.toLower = char := dif_neg hcapital
    rw [← hsame, h]
    exact ⟨_, utf8EncodeChar_digit hvalue, isDigitOf_digitByte hvalue⟩

lemma encode_cons (b : UInt8) (bytes : Bytes) :
    encode (b :: bytes) = digit (b.toNat / 16) :: digit (b.toNat % 16) :: encode bytes := rfl

/-- Whatever the case of its letters, what is written for bytes denotes them. -/
lemma denotes_of_toLower {chars : List Char} {bytes : Bytes}
    (h : chars.map Char.toLower = encode bytes) :
    Denotes (chars.flatMap String.utf8EncodeChar) bytes := by
  induction bytes generalizing chars with
  | nil =>
      obtain rfl := List.map_eq_nil_iff.mp h
      exact .nil
  | cons b bytes ih =>
      rw [encode_cons] at h
      obtain ⟨high, chars, rfl, hhigh, h⟩ := List.map_eq_cons_iff.mp h
      obtain ⟨low, chars, rfl, hlow, h⟩ := List.map_eq_cons_iff.mp h
      obtain ⟨highByte, hhighByte, hhighDigit⟩ :=
        utf8EncodeChar_of_toLower (Nat.div_lt_of_lt_mul b.toNat_lt) hhigh
      obtain ⟨lowByte, hlowByte, hlowDigit⟩ :=
        utf8EncodeChar_of_toLower (Nat.mod_lt _ (by decide)) hlow
      have hpair := Denotes.cons hhighDigit hlowDigit (ih h)
      rw [Nat.div_add_mod, UInt8.ofNat_toNat] at hpair
      rw [List.flatMap_cons, List.flatMap_cons, hhighByte, hlowByte]
      exact hpair

/-! ## What is written -/

lemma toLower_digit {value : Nat} (h : value < 16) : (digit value).toLower = digit value := by
  interval_cases value <;> rfl

/-- What is written is in lower case. -/
lemma map_toLower_encode (bytes : Bytes) : (encode bytes).map Char.toLower = encode bytes := by
  induction bytes with
  | nil => rfl
  | cons b bytes ih =>
      rw [encode_cons, List.map_cons, List.map_cons, ih,
        toLower_digit (Nat.div_lt_of_lt_mul b.toNat_lt), toLower_digit (Nat.mod_lt _ (by decide))]

/-- **What is written for bytes denotes them.** -/
theorem denotes_text (bytes : Bytes) : Denotes (utf8 (text bytes)) bytes := by
  rw [utf8, text, String.toList_ofList]
  exact denotes_of_toLower (map_toLower_encode bytes)

lemma stripMarks_text (bytes : Bytes) : stripMarks (utf8 (text bytes)) = utf8 (text bytes) :=
  stripMarks_of_digits (denotes_text bytes).isDigit

/-- **Bytes of any number are read back.** -/
theorem decode_text (bytes : Bytes) : decode (utf8 (text bytes)) = .ok bytes :=
  decode_eq_ok.mpr (denotes_text bytes)

/-- **A field of a fixed number of bytes is read back.** -/
theorem decodeFixed_text {n : Nat} (field : FixedBytes n) :
    decodeFixed n (utf8 (text field.bytes)) = .ok field := by
  have hdenotes := denotes_text field.bytes
  exact decodeFixed_eq_ok.mpr ⟨by rw [hdenotes.length_eq, field.length_eq], hdenotes⟩

end UtxoWire.Hex
