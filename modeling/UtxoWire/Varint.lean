import UtxoWire.Slice

/-!
# Variable-length numbers

Counts and discriminants are 64-bit numbers in groups of seven bits, the least significant group
first, one group a byte.  The high bit of a byte says that another byte follows.

* `Varint.encode` — the shortest form of a number, `Varint.size` bytes long.
* `Varint.put` — writes that form behind what is there.
* `Varint.decode` — reads a number from the front of some bytes, in whatever form it was written,
  and says how many bytes it took.
* `Varint.requireMinimal` — refuses a number that was not written in its shortest form.  Under this
  rule a number has one form only.
-/

namespace UtxoWire.Varint

/-- The most bytes a 64-bit number takes. -/
def maxSize : Nat := 10

/-! ## Writing -/

/-- The shortest form of a number: its groups, least significant first. -/
def encodeNat (n : Nat) : Bytes :=
  if n < 128 then [UInt8.ofNat n]
  else UInt8.ofNat (n % 128 + 128) :: encodeNat (n / 128)
termination_by n
decreasing_by omega

/-- The shortest form of a 64-bit number. -/
def encode (value : UInt64) : Bytes :=
  encodeNat value.toNat

/-- Moving a number down by seven bits drops its lowest group. -/
theorem toNat_shiftRight_seven (value : UInt64) : (value >>> 7).toNat = value.toNat / 128 := by
  rw [UInt64.toNat_shiftRight]
  exact Nat.shiftRight_eq_div_pow _ 7

/-- Writes the shortest form of a number behind what is there, a group at a time, and says how many
bytes that took. -/
def put (value : UInt64) (buffer : Bytes) : Nat × Bytes :=
  if value < 0x80 then (1, buffer ++ [value.toUInt8])
  else
    let (length, buffer) := put (value >>> 7) (buffer ++ [value.toUInt8 ||| 0x80])
    (length + 1, buffer)
termination_by value.toNat
decreasing_by
  have hlarge : 128 ≤ value.toNat := Nat.le_of_not_lt ‹¬ value < 0x80›
  rw [toNat_shiftRight_seven]
  omega

/-- How many significant bits a number has. -/
def bitLength (value : UInt64) : Nat :=
  if value = 0 then 0 else value.toNat.log2 + 1

/-- How many bytes the shortest form of a number takes: a byte for every seven bits begun, and
one byte for zero. -/
def size (value : UInt64) : Nat :=
  max 1 ((bitLength value + 6) / 7)

/-! ## Reading -/

/-- The seven bits of a byte, moved up to their place in the number.  A word has no place above
bit 63. -/
def placeGroup (group : UInt8) (shift : Nat) : Except WireError UInt64 :=
  if shift < 64 then .ok (group.toUInt64 <<< UInt64.ofNat shift)
  else .error (.outOfRange shift 63)

/-- Reads groups from the one at `index` on, `value` being what the groups before it add up to and
`available` the number of bytes the whole number could have taken. -/
def decodeGroups (available : Nat) : (index : Nat) → (value : UInt64) → Bytes →
    Except WireError (UInt64 × Nat)
  | _, _, [] => .error (.bufferTooShort (available + 1) available)
  | index, value, byte :: rest =>
    if index = maxSize then .error (.integerOverflow "decoding varint")
    else if byte < 0x80 then
      -- the tenth byte has room for the top bit of the number alone
      if index = maxSize - 1 ∧ 1 < byte then .error (.integerOverflow "decoding varint")
      else do
        let group ← placeGroup byte (7 * index)
        return (value ||| group, index + 1)
    else do
      let group ← placeGroup (byte &&& 0x7f) (7 * index)
      decodeGroups available (index + 1) (value ||| group) rest

/-- Reads the number at the front of the bytes, and how many bytes it took. -/
def decode (data : Bytes) : Except WireError (UInt64 × Nat) :=
  decodeGroups data.length 0 0 data

/-- Refuses a number that took other than its fewest bytes; `context` says what the number is. -/
def requireMinimal (context : String) (value : UInt64) (length : Nat) : Except WireError Unit :=
  require (length = size value) (.nonCanonicalVarint context value length)

end UtxoWire.Varint
