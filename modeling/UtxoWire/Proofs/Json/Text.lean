import UtxoWire.Json.Printer
import UtxoWire.Json.Reader
import UtxoWire.Proofs.Hex

/-!
# Scalars in JSON text

Texts and whole numbers are read as what was written, whatever follows the closing quote of a text,
and whatever follows a number as long as it does not go on with it.

* `Json.readPieces_escape` — a character, escaped if need be, is read as that character.
* **`Json.readText_quote`** — texts.
* `Json.Ends` — what may follow a number.
* **`Json.readNumber_toDigits`** — whole numbers of 64 bits.
-/

namespace UtxoWire.Json

/-! ## Texts -/

lemma hexValue?_digit {value : Nat} (h : value < 16) : hexValue? (Hex.digit value) = some value := by
  interval_cases value <;> rfl

/-- The escape of a control character is read as that character. -/
lemma unitPiece_control {c : Char} (h : c.toNat < 32) :
    unitPiece '0' '0' (Hex.digit (c.toNat / 16)) (Hex.digit (c.toNat % 16)) = some (.char c) := by
  have hzero : hexValue? '0' = some 0 := rfl
  have hhigh : hexValue? (Hex.digit (c.toNat / 16)) = some (c.toNat / 16) :=
    hexValue?_digit (by omega)
  have hlow : hexValue? (Hex.digit (c.toNat % 16)) = some (c.toNat % 16) :=
    hexValue?_digit (by omega)
  have hunit : 4096 * 0 + 256 * 0 + 16 * (c.toNat / 16) + c.toNat % 16 = c.toNat := by omega
  have hwhole : ¬ (0xD800 ≤ c.toNat ∧ c.toNat ≤ 0xDFFF) := by omega
  simp only [unitPiece, hzero, hhigh, hlow, Option.bind_eq_bind, Option.bind_some, hunit,
    if_neg hwhole, Char.ofNat_toNat]
  rfl

lemma readPieces_plain {c : Char} (hquote : c ≠ '"') (hslash : c ≠ '\\') (h : ¬ c.toNat < 32)
    (rest : List Char) :
    readPieces (c :: rest) = (readPieces rest).map fun p => (.char c :: p.1, p.2) := by
  rw [readPieces.eq_def]
  split
  case h_5 heq =>
    cases heq
    rw [if_neg h]
    cases readPieces rest <;> rfl
  all_goals simp_all

lemma readPieces_letter {letter : Char} (h : letter ≠ 'u') (rest : List Char) :
    readPieces ('\\' :: letter :: rest) =
      (escaped? letter).bind fun c => (readPieces rest).map fun p => (.char c :: p.1, p.2) := by
  rw [readPieces.eq_def]
  split
  case h_4 heq =>
    cases heq
    cases escaped? letter with
    | none => rfl
    | some c => cases readPieces rest <;> rfl
  case h_5 hescape heq =>
    cases heq
    exact absurd rfl (hescape letter rest rfl)
  all_goals simp_all

lemma readPieces_control {c : Char} (h : c.toNat < 32) (rest : List Char) :
    readPieces ('\\' :: 'u' :: '0' :: '0' :: Hex.digit (c.toNat / 16) ::
      Hex.digit (c.toNat % 16) :: rest)
        = (readPieces rest).map fun p => (.char c :: p.1, p.2) := by
  rw [readPieces, unitPiece_control h]
  cases readPieces rest <;> rfl

/-- A character between quotes is read as itself. -/
lemma readPieces_escape (c : Char) (rest : List Char) :
    readPieces (escape c ++ rest) = (readPieces rest).map fun p => (.char c :: p.1, p.2) := by
  unfold escape
  split
  case h_8 hquote hslash _ _ _ _ _ =>
    split
    case isTrue hcontrol => exact readPieces_control hcontrol rest
    case isFalse hplain => exact readPieces_plain hquote hslash hplain rest
  all_goals exact readPieces_letter (by decide) rest

lemma readPieces_flatMap (chars rest : List Char) :
    readPieces (chars.flatMap escape ++ '"' :: rest) = some (chars.map .char, rest) := by
  induction chars with
  | nil => rfl
  | cons c chars ih =>
      rw [List.flatMap_cons, List.append_assoc, readPieces_escape, ih]
      rfl

lemma spell_map_char (chars : List Char) : spell (chars.map .char) = some chars := by
  induction chars with
  | nil => rfl
  | cons c chars ih => rw [List.map_cons, spell, ih, Option.map_some]

/-- **A text in quotes is read as that text.** -/
theorem readText_quote (text : String) (rest : List Char) :
    readText (text.toList.flatMap escape ++ '"' :: rest) = some (some text, rest) := by
  simp only [readText, readPieces_flatMap, spell_map_char, Option.map_some, String.ofList_toList]

/-! ## Numbers -/

/-- A number that stands in front of this text ends there. -/
def Ends (text : List Char) : Prop :=
  ∀ c ∈ text.head?, c.isDigit = false ∧ c ≠ '.' ∧ c ≠ 'e' ∧ c ≠ 'E'

lemma ends_nil : Ends [] := nofun

lemma ends_cons {c : Char} (h : c.isDigit = false ∧ c ≠ '.' ∧ c ≠ 'e' ∧ c ≠ 'E')
    (rest : List Char) : Ends (c :: rest) := by
  rintro _ ⟨⟩
  exact h

lemma spanDigits_append {digits rest : List Char} (hdigits : ∀ c ∈ digits, c.isDigit = true)
    (hrest : Ends rest) : spanDigits (digits ++ rest) = (digits, rest) := by
  have hnone : spanDigits rest = ([], rest) := by
    cases rest with
    | nil => rfl
    | cons c rest => simp [spanDigits, (hrest c rfl).1]
  rw [spanDigits, Prod.mk.injEq] at hnone
  rw [spanDigits, List.takeWhile_append_of_pos hdigits, List.dropWhile_append_of_pos hdigits,
    hnone.1, hnone.2, List.append_nil]

lemma readFraction_of_ends {rest : List Char} (h : Ends rest) :
    readFraction rest = some (none, rest) := by
  cases rest with
  | nil => rfl
  | cons c rest =>
      unfold readFraction
      split
      case h_1 heq =>
        cases heq
        exact absurd rfl (h '.' rfl).2.1
      case h_2 => rfl

lemma readExponent_of_ends {rest : List Char} (h : Ends rest) :
    readExponent rest = some (none, rest) := by
  cases rest with
  | nil => rfl
  | cons c rest =>
      obtain ⟨-, -, hlower, hupper⟩ := h c rfl
      have hnone : ¬ (c = 'e' ∨ c = 'E') := not_or.mpr ⟨hlower, hupper⟩
      exact if_neg hnone

/-- No number but zero is written with a zero in front. -/
lemma head?_toDigits_ne {n : Nat} (h : 0 < n) : (Nat.toDigits 10 n).head? ≠ some '0' := by
  induction n using Nat.strongRecOn with
  | ind n ih =>
      rw [Nat.toDigits_eq_if (by decide)]
      split
      case isTrue hlt => simpa using Nat.ne_of_gt h
      case isFalse hge =>
        have hrest := ih (n / 10) (by omega) (by omega)
        rw [List.head?_append]
        cases hdigits : Nat.toDigits 10 (n / 10) with
        | nil => exact absurd hdigits Nat.toDigits_ne_nil
        | cons c digits =>
            rw [hdigits] at hrest
            exact hrest

lemma wholePart_toDigits (n : Nat) : wholePart (Nat.toDigits 10 n) = true := by
  rcases Nat.eq_zero_or_pos n with rfl | hpos
  · rfl
  · have hne : Nat.toDigits 10 n ≠ [] := Nat.toDigits_ne_nil
    have hhead := head?_toDigits_ne hpos
    unfold wholePart
    split <;> simp_all

lemma ofDigits_toDigits (n : Nat) : ofDigits (Nat.toDigits 10 n) = n :=
  Nat.ofDigitChars_toDigits (by decide) (by decide)

lemma isDigit_of_mem_toDigits {n : Nat} : ∀ c ∈ Nat.toDigits 10 n, c.isDigit = true :=
  fun _ => Nat.isDigit_of_mem_toDigits (by decide) (by decide)

/-- **A whole number of 64 bits is read as that number**, if it ends where it should. -/
theorem readNumber_toDigits {n : Nat} (hfits : n < UInt64.size) {rest : List Char}
    (hrest : Ends rest) : readNumber (Nat.toDigits 10 n ++ rest) = some (.natural n, rest) := by
  have hsign : readNumber (Nat.toDigits 10 n ++ rest)
      = readUnsigned false (Nat.toDigits 10 n ++ rest) := by
    unfold readNumber
    split
    case h_1 rest' heq =>
      have hminus : '-' ∈ Nat.toDigits 10 n := by
        cases hdigits : Nat.toDigits 10 n with
        | nil => exact absurd hdigits Nat.toDigits_ne_nil
        | cons c digits =>
            rw [hdigits, List.cons_append, List.cons.injEq] at heq
            rw [heq.1]
            exact List.mem_cons_self
      exact absurd (isDigit_of_mem_toDigits '-' hminus) (by decide)
    case h_2 => rfl
  rw [hsign, readUnsigned, spanDigits_append isDigit_of_mem_toDigits hrest]
  simp [wholePart_toDigits, readFraction_of_ends hrest, readExponent_of_ends hrest,
    ofDigits_toDigits, hfits]

end UtxoWire.Json
