import UtxoWire.Family

/-!
# Errors

Everything that can go wrong while objects are read, written or checked, as causes rather than
texts.  Bytes that are malformed and rules that are broken share one type.

* `WireError` — the causes.  `WireError.inEntity` wraps a cause with the name of the object whose
  reading or writing failed, so that a nested failure says where it happened.
* `WireError.rootCause`, `WireError.entities` — what lies under the wrappers, and the wrappers
  themselves, outermost first.
* `WireError.message` — the wording.
-/

namespace UtxoWire

/-- Which rule on a number of bytes was broken. -/
inductive LengthBound
  | exact
  | min
  | max
deriving DecidableEq

/-- How a message words the rule. -/
def LengthBound.wording : LengthBound → String
  | .exact => "exactly"
  | .min => "at least"
  | .max => "at most"

/-- Which bound on a number of elements was broken. -/
inductive CountBound
  | min
  | max
deriving DecidableEq

/-- How a message words the bound. -/
def CountBound.wording : CountBound → String
  | .min => "min"
  | .max => "max"

/-- Why an object could not be read, written or accepted. -/
inductive WireError
  /-- A stretch of bytes breaks a rule on its length. -/
  | invalidLength (bound : LengthBound) (required actual : Nat)
  /-- The bytes ended inside a number. -/
  | bufferTooShort (needed available : Nat)
  /-- A discriminant that its family does not know. -/
  | unknownType (family : Family) (discriminant : UInt64)
  /-- A discriminant other than the one of the object being read. -/
  | typeMismatch (family : Family) (expected actual : UInt64)
  /-- A number not written in its shortest form. -/
  | nonCanonicalVarint (context : String) (value : UInt64) (length : Nat)
  /-- A variant that holds its discriminant but has no wire form. -/
  | unimplemented (family : Family) (variant : String)
  /-- An array has too few or too many elements. -/
  | countOutOfBounds (array : String) (bound : CountBound) (limit count : UInt64)
  /-- An element does not sort strictly after the one before it. -/
  | lexicalOrderViolation (array : String) (previous current : Nat)
  /-- Two inputs spend the same output. -/
  | duplicateReference (index duplicateOf : Nat)
  /-- An input refers to an output index above the highest allowed. -/
  | invalidReference (index : Nat) (outputIndex max : UInt16)
  /-- Two outputs deposit to the same address. -/
  | duplicateDeposit (index duplicateOf : Nat)
  /-- An output deposits nothing. -/
  | invalidDepositAmount (index : Nat) (amount : UInt64)
  /-- One output deposits more than there is. -/
  | supplyExceeded (index : Nat) (amount supply : UInt64)
  /-- The outputs so far deposit more than there is. -/
  | supplySumExceeded (total supply : UInt64)
  /-- A number does not fit into 64 bits. -/
  | integerOverflow (context : String)
  /-- There is not one unlock block for each input. -/
  | unlockBlockCountMismatch (inputs unlockBlocks : Nat)
  /-- A reference unlock block does not name an earlier signature unlock block. -/
  | invalidUnlockReference (index : Nat) (reference : UInt16)
  /-- Two signature unlock blocks carry the same signature. -/
  | duplicateSignature (index duplicateOf : Nat)
  /-- Bytes are left over after an object that should have been all there is. -/
  | trailingBytes (consumed trailing : Nat)
  /-- Protocol parameters that cannot be used. -/
  | invalidParameters (reason : String)
  /-- A position outside the range it is used in: a slice past the end of its bytes, or a shift by
  more than the width of a word. -/
  | outOfRange (position limit : Nat)
  /-- The failure of the object with this name. -/
  | inEntity (entity : String) (cause : WireError)
deriving DecidableEq

namespace WireError

/-- The failure under all the names it is wrapped in. -/
def rootCause : WireError → WireError
  | .inEntity _ cause => cause.rootCause
  | error => error

/-- The names a failure is wrapped in, outermost first. -/
def entities : WireError → List String
  | .inEntity entity cause => entity :: cause.entities
  | _ => []

/-- The wording of a failure; a wrapped one repeats the wording of its cause. -/
def message : WireError → String
  | .invalidLength bound required actual =>
    s!"invalid bytes: data must be {bound.wording} {required} bytes long but is {actual}"
  | .bufferTooShort needed available =>
    s!"not enough data for deserialization: needed {needed} bytes but only {available} available"
  | .unknownType family discriminant =>
    s!"unknown {family.name} type: discriminant {discriminant.toNat}"
  | .typeMismatch family expected actual =>
    s!"{family.name} type mismatch: expected {expected.toNat} but got {actual.toNat}"
  | .nonCanonicalVarint context value length =>
    s!"non-canonical varint for {context}: {value.toNat} encoded in {length} bytes"
  | .unimplemented family variant => s!"{family.name} variant {variant} is not implemented"
  | .countOutOfBounds array bound limit count =>
    s!"{array} count out of bounds: {bound.wording} is {limit.toNat} but count is {count.toNat}"
  | .lexicalOrderViolation array previous current =>
    s!"{array} must be in their lexical order (byte wise) when serialized: " ++
      s!"element {current} should have been before element {previous}"
  | .duplicateReference index duplicateOf =>
    s!"inputs must each reference a unique UTXO: input {index} duplicates input {duplicateOf}"
  | .invalidReference index outputIndex max =>
    s!"input {index} references output index {outputIndex.toNat}, " ++
      s!"allowed range is 0..={max.toNat}"
  | .duplicateDeposit index duplicateOf =>
    s!"outputs must each deposit to a unique address: output {index} " ++
      s!"duplicates output {duplicateOf}"
  | .invalidDepositAmount index amount =>
    s!"output {index} deposits {amount.toNat}, deposits must be greater than zero"
  | .supplyExceeded index amount supply =>
    s!"output {index} deposits {amount.toNat}, " ++
      s!"which is more than the total supply of {supply.toNat}"
  | .supplySumExceeded total supply =>
    s!"accumulated output balance {total.toNat} exceeds total supply of {supply.toNat}"
  | .integerOverflow context => s!"integer overflow while {context}"
  | .unlockBlockCountMismatch inputs unlockBlocks =>
    s!"{unlockBlocks} unlock blocks given for {inputs} inputs"
  | .invalidUnlockReference index reference =>
    s!"unlock block {index} references {reference.toNat}, " ++
      "which is not an earlier signature unlock block"
  | .duplicateSignature index duplicateOf =>
    s!"signature unlock block {index} duplicates unlock block {duplicateOf}"
  | .trailingBytes consumed trailing =>
    s!"{trailing} trailing bytes after {consumed} consumed bytes"
  | .invalidParameters reason => s!"invalid protocol parameters: {reason}"
  | .outOfRange position limit => s!"position {position} is out of range, the limit is {limit}"
  | .inEntity entity cause => s!"unable to de/serialize {entity}: {cause.message}"

/-- The wording of a failure followed by that of each cause it wraps. -/
def messages : WireError → List String
  | .inEntity entity cause => message (.inEntity entity cause) :: cause.messages
  | error => [error.message]

/-- A root cause is itself no wrapper. -/
theorem rootCause_ne_inEntity (error : WireError) (entity : String) (cause : WireError) :
    error.rootCause ≠ .inEntity entity cause := by
  induction error with
  | inEntity _ _ ih => exact ih
  | _ => simp [rootCause]

end WireError

end UtxoWire
