/-!
# Bytes

The raw material of the wire format.  A stretch of bytes is a list, compared byte by byte; the
fields whose size the format fixes carry their length in their type.

* `Bytes` — a stretch of bytes of any length.
* `FixedBytes n` — exactly `n` bytes: keys, signatures, digests.
* `toLittleEndian`, `ofLittleEndian` — whole numbers as fields of a fixed width, the least
  significant byte first.
-/

namespace UtxoWire

/-- A stretch of bytes.  The order on lists is the bytewise order the wire format sorts by: the
first differing byte decides, and a stretch sorts before its own extensions. -/
abbrev Bytes := List UInt8

/-- Exactly `n` bytes. -/
structure FixedBytes (n : Nat) where
  /-- The bytes themselves. -/
  bytes : Bytes
  /-- There are as many as the type says. -/
  length_eq : bytes.length = n
deriving DecidableEq

namespace FixedBytes

/-- All zero, the content of a field nobody has filled in. -/
def zeros (n : Nat) : FixedBytes n :=
  ⟨List.replicate n 0, List.length_replicate⟩

instance {n : Nat} : Inhabited (FixedBytes n) :=
  ⟨zeros n⟩

/-- The given bytes, if there are exactly `n` of them. -/
def ofBytes? (n : Nat) (bytes : Bytes) : Option (FixedBytes n) :=
  if h : bytes.length = n then some ⟨bytes, h⟩ else none

/-- Two fields are equal as soon as their bytes are. -/
theorem eq_of_bytes_eq {n : Nat} {a b : FixedBytes n} (h : a.bytes = b.bytes) : a = b := by
  cases a
  cases b
  cases h
  rfl

/-- Reading a field's own bytes back gives the field. -/
@[simp]
theorem ofBytes?_bytes {n : Nat} (a : FixedBytes n) : ofBytes? n a.bytes = some a := by
  simp [ofBytes?, a.length_eq]

end FixedBytes

/-! ## Whole numbers -/

/-- The `width` low bytes of a number, least significant first. -/
def toLittleEndian : (width : Nat) → Nat → Bytes
  | 0, _ => []
  | width + 1, n => UInt8.ofNat n :: toLittleEndian width (n / 256)

/-- The number that bytes spell, least significant first. -/
def ofLittleEndian : Bytes → Nat
  | [] => 0
  | b :: rest => b.toNat + 256 * ofLittleEndian rest

/-- A field is as wide as asked for, whatever number it holds. -/
@[simp]
theorem length_toLittleEndian (width n : Nat) : (toLittleEndian width n).length = width := by
  induction width generalizing n with
  | zero => rfl
  | succ width ih => simp [toLittleEndian, ih]

/-- Writing the number a field holds gives the field back. -/
theorem toLittleEndian_ofLittleEndian (bytes : Bytes) :
    toLittleEndian bytes.length (ofLittleEndian bytes) = bytes := by
  induction bytes with
  | nil => rfl
  | cons b rest ih =>
    have hb := b.toNat_lt
    have hhead : UInt8.ofNat (b.toNat + 256 * ofLittleEndian rest) = b := by
      rw [← UInt8.toNat_inj, UInt8.toNat_ofNat']
      omega
    have htail : (b.toNat + 256 * ofLittleEndian rest) / 256 = ofLittleEndian rest := by omega
    simp only [ofLittleEndian, List.length_cons, toLittleEndian, hhead, htail, ih]

end UtxoWire
