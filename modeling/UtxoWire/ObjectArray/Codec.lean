import UtxoWire.Codec
import UtxoWire.ObjectArray.Rules

/-!
# Arrays of objects

An array is the number of its elements followed by the wire forms of the elements.

* `ObjectArray.decodeIn` — reads an array, under rules or without, in any monad in which its elements
  can be read; `ObjectArray.decode` reads them with success and failure alone.
* `ObjectArray.append`, `ObjectArray.encode` — writes an array behind what is there, or on its own.
  Elements are written in the order given.
-/

namespace UtxoWire.ObjectArray

variable {α : Type}

/-! ## Reading -/

/-- Lets an order check, if there is one, look at the wire form of the element at `index`: the first
`length` bytes. -/
def checkOrder (order : Option OrderCheck) (index length : Nat) (data : Bytes) :
    Except WireError (Option OrderCheck) :=
  match order with
  | none => .ok none
  | some order => do
    let element ← Bytes.first length data
    match order.check index element.bytes with
    | (.ok (), order) => .ok (some order)
    | (.error error, _) => .error error

/-- What is asked of the number of elements, which took `length` bytes, before any of them is read:
its shortest form under validation, and the bounds. -/
def checkCount (mode : Mode) (rules : Option ArrayRules) (count : UInt64) (length : Nat) :
    Except WireError Unit := do
  mode.check (Varint.requireMinimal "array count" count length)
  rules.elim (.ok ()) fun rules => rules.checkBounds count

section

-- The loop is the same wherever elements can be read, so that more can be told of it than how it
-- comes out.
variable {m : Type → Type} [Monad m] [MonadLiftT (Except WireError) m]

/-- Reads `count` elements, each with `decodeOne` and the first of them at place `index`, and says
how many bytes they took.  The first failure ends the reading. -/
def decodeElementsIn (decodeOne : Bytes → m (α × Nat)) : (count index : Nat) →
    Option OrderCheck → Bytes → m (List α × Nat)
  | 0, _, _, _ => return ([], 0)
  | count + 1, index, order, data => do
    let (object, length) ← decodeOne data
    let order ← checkOrder order index length data
    let rest ← Bytes.skip length data
    let (objects, restLength) ← decodeElementsIn decodeOne count (index + 1) order rest
    return (object :: objects, length + restLength)

/-- Reads the array at the front of the bytes, each element with `decodeOne`, and says how many bytes
it took.  The number of elements is held against the rules before any element is read. -/
def decodeIn (decodeOne : Bytes → m (α × Nat)) (mode : Mode) (rules : Option ArrayRules)
    (data : Bytes) : m (List α × Nat) := do
  let (count, length) ← Varint.decode data
  checkCount mode rules count length
  let elements ← Bytes.skip length data
  let (objects, elementsLength) ←
    decodeElementsIn decodeOne count.toNat 0 (rules.bind ArrayRules.orderCheck?) elements
  return (objects, length + elementsLength)

end

/-- Reads the array at the front of the bytes, whose elements are objects of one family. -/
def decode (codec : Codec α) (mode : Mode) (rules : Option ArrayRules) (data : Bytes) :
    Except WireError (List α × Nat) :=
  decodeIn (codec.decode mode) mode rules data

/-! ## Writing -/

/-- The wire form of an element; a failure is wrapped with the element's name. -/
def encodeElement (codec : Codec α) (mode : Mode) (object : α) : Except WireError Bytes :=
  (codec.encode mode object).mapError (.inEntity (codec.typeName object))

/-- Writes the elements behind what is there, up to the first that has no wire form. -/
def appendElements (codec : Codec α) (mode : Mode) : List α → Update Bytes Unit
  | [] => return ()
  | object :: objects => do
    let bytes ← encodeElement codec mode object
    modify fun buffer => buffer ++ bytes
    appendElements codec mode objects

/-- Writes an array behind what is there.  If an element has no wire form, the number of elements
and the elements before it stay written. -/
def append (codec : Codec α) (mode : Mode) (objects : List α) : Update Bytes Unit := do
  modify fun buffer => buffer ++ Varint.encodeNat objects.length
  appendElements codec mode objects

/-- The wire form of an array. -/
def encode (codec : Codec α) (mode : Mode) (objects : List α) : Except WireError Bytes := do
  let (buffer, _) ← (append codec mode objects).fill []
  return buffer

end UtxoWire.ObjectArray
