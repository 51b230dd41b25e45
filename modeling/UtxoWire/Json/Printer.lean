import UtxoWire.Hex
import UtxoWire.Json.Value

/-!
# Writing JSON text

From a tree to its text, in two layouts.

* `Json.compact` — without blanks.
* `Json.pretty` — each item and member on a line of its own, two more blanks in front of it for
  every level.  Empty arrays and objects stay on one line.

What a tree does not say, the value of a number that is not whole or a text that is missing, is
written as `null`.
-/

namespace UtxoWire.Json

/-! ## Scalars -/

/-- A character between quotes.  Quotes, backslashes and control characters are escaped. -/
def escape (c : Char) : List Char :=
  match c with
  | '"' => ['\\', '"']
  | '\\' => ['\\', '\\']
  | '\x08' => ['\\', 'b']
  | '\x0c' => ['\\', 'f']
  | '\n' => ['\\', 'n']
  | '\r' => ['\\', 'r']
  | '\t' => ['\\', 't']
  | c =>
    if c.toNat < 32 then
      ['\\', 'u', '0', '0', Hex.digit (c.toNat / 16), Hex.digit (c.toNat % 16)]
    else [c]

/-- A text in quotes. -/
def quote (text : String) : List Char :=
  '"' :: (text.toList.flatMap escape ++ ['"'])

/-- The text for `null`. -/
def nullText : List Char :=
  ['n', 'u', 'l', 'l']

/-- A text, or `null` where there is none. -/
def quote? (text : Option String) : List Char :=
  text.elim nullText quote

/-- A truth value. -/
def boolText : Bool → List Char
  | true => ['t', 'r', 'u', 'e']
  | false => ['f', 'a', 'l', 's', 'e']

/-! ## Compact layout -/

mutual

/-- The text without blanks. -/
def compact : Json → List Char
  | .bool value => boolText value
  | .natural value => Nat.toDigits 10 value
  | .string text => quote? text
  | .array [] => ['[', ']']
  | .array (item :: items) => '[' :: (item.compact ++ compactItems items)
  | .object [] => ['\x7b', '\x7d']
  | .object ((key, value) :: members) =>
    '\x7b' :: (quote? key ++ ':' :: (value.compact ++ compactMembers members))
  | _ => nullText

/-- The items after the first, and the closing bracket. -/
def compactItems : List Json → List Char
  | [] => [']']
  | item :: items => ',' :: (item.compact ++ compactItems items)

/-- The members after the first, and the closing brace. -/
def compactMembers : List (Option String × Json) → List Char
  | [] => ['\x7d']
  | (key, value) :: members =>
    ',' :: (quote? key ++ ':' :: (value.compact ++ compactMembers members))

end

/-! ## Pretty layout -/

/-- A new line at a level. -/
def newline (level : Nat) : List Char :=
  '\n' :: List.replicate (2 * level) ' '

mutual

/-- The text of a value that stands at a level. -/
def pretty (level : Nat) : Json → List Char
  | .bool value => boolText value
  | .natural value => Nat.toDigits 10 value
  | .string text => quote? text
  | .array [] => ['[', ']']
  | .array (item :: items) =>
    '[' :: (newline (level + 1) ++ (item.pretty (level + 1) ++ prettyItems level items))
  | .object [] => ['\x7b', '\x7d']
  | .object ((key, value) :: members) =>
    '\x7b' :: (newline (level + 1) ++ (quote? key ++
      ':' :: ' ' :: (value.pretty (level + 1) ++ prettyMembers level members)))
  | _ => nullText

/-- The items after the first, and the closing bracket. -/
def prettyItems (level : Nat) : List Json → List Char
  | [] => newline level ++ [']']
  | item :: items =>
    ',' :: (newline (level + 1) ++ (item.pretty (level + 1) ++ prettyItems level items))

/-- The members after the first, and the closing brace. -/
def prettyMembers (level : Nat) : List (Option String × Json) → List Char
  | [] => newline level ++ ['\x7d']
  | (key, value) :: members =>
    ',' :: (newline (level + 1) ++ (quote? key ++
      ':' :: ' ' :: (value.pretty (level + 1) ++ prettyMembers level members)))

end

/-! ## Texts -/

/-- The text without blanks. -/
def compactText (value : Json) : String :=
  String.ofList value.compact

/-- The text with a line for each item and member. -/
def prettyText (value : Json) : String :=
  String.ofList (value.pretty 0)

end UtxoWire.Json
