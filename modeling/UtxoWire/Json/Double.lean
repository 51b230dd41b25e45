/-!
# Numbers as doubles

A number that is not a whole number of 64 bits is kept as a double.  It is worked out in one
multiplication: the digits in front that together fit into 64 bits, times a power of ten.  Both
factors are rounded to doubles before they are multiplied, so that close to the largest double the
way a number is written decides whether it can be kept.

* `Double.nearest` — the double that stands for a whole number.
* `Double.takeDigits` — the digits that go into the first factor.
* `Double.inRange` — whether the product is a double again, and not infinite.
-/

namespace UtxoWire.Double

/-- From here on a number is rounded to infinity rather than to the largest double. -/
def limit : Nat := Nat.pow 2 1024 - Nat.pow 2 970

/-- The multiple of the unit in the last place that is nearest to a whole number, the even one of
two that are equally near.  A double has 53 significant bits. -/
def nearest (value : Nat) : Nat :=
  let unit := Nat.pow 2 (value.log2 - 52)
  let below := value / unit
  let rest := value % unit
  if 2 * rest < unit ∨ (2 * rest = unit ∧ below % 2 = 0) then below * unit
  else (below + 1) * unit

/-- The value of a decimal digit. -/
def digitValue (digit : Char) : Nat :=
  digit.toNat - 48

/-- Appends digits to a number for as long as it fits into 64 bits; gives the number and the digits
that are left. -/
def takeDigits : Nat → List Char → Nat × List Char
  | value, [] => (value, [])
  | value, digit :: digits =>
    let longer := 10 * value + digitValue digit
    if longer < UInt64.size then takeDigits longer digits else (value, digit :: digits)

/-- Whether `significand` times ten to the power `exponent` is finite.  Powers of ten above the
308th are infinite themselves; nothing is too small. -/
def inRange (significand : Nat) (exponent : Int) : Bool :=
  if significand = 0 ∨ exponent ≤ 0 then true
  else if 308 < exponent then false
  else decide (nearest significand * nearest (Nat.pow 10 exponent.toNat) < limit)

/-- Whether the number with these digits in front of and behind the point, times ten to the power
`exponent`, is finite.  Digits in front of the point that do not go into the first factor count
towards the power of ten; those behind it are dropped. -/
def finite (whole fraction : List Char) (exponent : Int) : Bool :=
  let (value, beyond) := takeDigits 0 whole
  let (significand, dropped) := takeDigits value fraction
  let places : Int := fraction.length - dropped.length
  inRange significand (exponent + beyond.length - places)

end UtxoWire.Double
