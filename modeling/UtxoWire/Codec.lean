import UtxoWire.Varint

/-!
# Reading and writing objects

What all objects of the wire format have in common.  An object starts with the discriminant of its
variant.  Whoever reads a family looks at the discriminant first, picks the variant, and hands the
untouched bytes to it; the variant reads its own discriminant again.

* `Mode` — whether rules are checked on top of the structure.
* `Update` — a change to a value that may fail part way.
* `Codec` — how the objects of one family are read and written.  `Codec.decode` reads whichever
  variant is there, `Codec.decodeExact` insists that nothing follows it.
* `readDiscriminant` — the first step of reading any object.
-/

namespace UtxoWire

/-- How much is checked while objects are read and written. -/
inductive Mode
  /-- Structure alone: lengths, numbers, known variants. -/
  | structural
  /-- Also discriminants, shortest forms, counts, order and uniqueness. -/
  | validated
deriving DecidableEq

/-- Carries out a check where the mode asks for it. -/
def Mode.check (mode : Mode) (rule : Except WireError Unit) : Except WireError Unit :=
  match mode with
  | .structural => .ok ()
  | .validated => rule

/-! ## Updates -/

/-- A change to a value of type `σ` that yields an `α` or fails.  What had been written before a
failure stays written, so that an update leaves a value alone when it fails is a property to be
shown, not a matter of course. -/
abbrev Update (σ α : Type) := ExceptT WireError (StateM σ) α

namespace Update

variable {σ τ α : Type}

/-- The outcome of an update, and the value afterwards. -/
def apply (update : Update σ α) (value : σ) : Except WireError α × σ :=
  (ExceptT.run update).run value

/-- An update given by its outcome and the value afterwards. -/
def ofApply (f : σ → Except WireError α × σ) : Update σ α :=
  ExceptT.mk fun value => f value

/-- The value an update makes of a fresh one, together with what it yields. -/
def fill (update : Update σ α) (fresh : σ) : Except WireError (σ × α) :=
  match update.apply fresh with
  | (.ok result, value) => .ok (value, result)
  | (.error error, _) => .error error

/-- An update of a part, carried out on the whole that `wrap` puts around it. -/
def inside (update : Update τ α) (wrap : τ → σ) (part : τ) : Except WireError α × σ :=
  let (outcome, part) := update.apply part
  (outcome, wrap part)

end Update

/-! ## Codecs -/

/-- How the objects of one family are read and written. -/
structure Codec (α : Type) where
  /-- The empty object of the variant with this discriminant. -/
  blank : UInt64 → Except WireError α
  /-- Reads the bytes of an object of the same variant over this one, and yields how many they
  were. -/
  decodeInto : Mode → Bytes → Update α Nat
  /-- The bytes of an object, its discriminant included. -/
  encode : Mode → α → Except WireError Bytes
  /-- The name of the object's variant in messages. -/
  typeName : α → String

namespace Codec

variable {α : Type}

/-- Reads the object at the front of the bytes, whichever variant it is, and says how many bytes it
took.  A failure of the variant is wrapped with its name. -/
def decode (codec : Codec α) (mode : Mode) (data : Bytes) : Except WireError (α × Nat) := do
  let (discriminant, _) ← Varint.decode data
  let blank ← codec.blank discriminant
  ((codec.decodeInto mode data).fill blank).mapError (.inEntity (codec.typeName blank))

/-- What is left when an object should have been all there is. -/
def requireAll (consumed : Nat) (data : Bytes) : Except WireError Unit :=
  require (consumed = data.length) (.trailingBytes consumed (data.length - consumed))

/-- Reads an object that has to take all the bytes. -/
def decodeExact (codec : Codec α) (mode : Mode) (data : Bytes) : Except WireError α := do
  let (object, consumed) ← codec.decode mode data
  requireAll consumed data
  return object

end Codec

/-! ## Discriminants -/

/-- Reads the discriminant of an object, and gives the bytes after it and how many it took.  Under
validation it has to be the expected one, in its shortest form. -/
def readDiscriminant (mode : Mode) (family : Family) (expected : UInt64) (data : Bytes) :
    Except WireError (Bytes × Nat) := do
  let (actual, length) ← Varint.decode data
  mode.check do
    require (actual = expected) (.typeMismatch family expected actual)
    Varint.requireMinimal "discriminant" actual length
  let body ← Bytes.skip length data
  return (body, length)

end UtxoWire
