import UtxoWire.Bytes
import UtxoWire.WireError

/-!
# Length rules and slices

The two ways a reader looks at how many bytes there are.  A *rule* on a length is part of the
format, and breaking it is reported to the user.  A *slice* is a step of the reader itself: it
takes bytes the reader has already made sure of, and one that reaches past the end of its bytes is
refused as out of range instead of being cut short.

* `requireExactly`, `requireAtLeast`, `requireAtMost`, `requireBetween` — the rules.
* `Bytes.skip`, `Bytes.first` — the slices.
-/

namespace UtxoWire

/-- Goes on if the condition holds, and fails with the given error otherwise. -/
def require (condition : Prop) [Decidable condition] (error : WireError) : Except WireError Unit :=
  if condition then .ok () else .error error

/-! ## Rules on lengths -/

/-- There must be exactly as many bytes. -/
def requireExactly (exact length : Nat) : Except WireError Unit :=
  require (length = exact) (.invalidLength .exact exact length)

/-- There must be at least as many bytes. -/
def requireAtLeast (min length : Nat) : Except WireError Unit :=
  require (min ≤ length) (.invalidLength .min min length)

/-- There must be at most as many bytes. -/
def requireAtMost (max length : Nat) : Except WireError Unit :=
  require (length ≤ max) (.invalidLength .max max length)

/-- The number of bytes must lie between two bounds; the lower one is looked at first. -/
def requireBetween (min max length : Nat) : Except WireError Unit := do
  requireAtLeast min length
  requireAtMost max length

/-! ## Slices -/

/-- The bytes from an offset on. -/
def Bytes.skip (offset : Nat) (data : Bytes) : Except WireError Bytes :=
  if offset ≤ data.length then .ok (data.drop offset)
  else .error (.outOfRange offset data.length)

/-- The first `n` bytes. -/
def Bytes.first (n : Nat) (data : Bytes) : Except WireError (FixedBytes n) :=
  if h : n ≤ data.length then .ok ⟨data.take n, List.length_take_of_le h⟩
  else .error (.outOfRange n data.length)

/-- A slice that starts within its bytes succeeds. -/
theorem Bytes.skip_eq_ok {offset : Nat} {data : Bytes} (h : offset ≤ data.length) :
    Bytes.skip offset data = .ok (data.drop offset) := by
  simp [Bytes.skip, h]

/-- A slice that ends within its bytes succeeds. -/
theorem Bytes.first_eq_ok {n : Nat} {data : Bytes} (h : n ≤ data.length) :
    Bytes.first n data = .ok ⟨data.take n, List.length_take_of_le h⟩ := by
  simp [Bytes.first, h]

end UtxoWire
