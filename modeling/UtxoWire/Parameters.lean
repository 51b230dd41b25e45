import UtxoWire.ObjectArray.Rules

/-!
# Protocol parameters

The limits a network sets: how many tokens there are, how many inputs and outputs a transaction may
have, and how far into an earlier transaction an input may point.

* `ProtocolParameters` — the limits; the default ones are those of the main network.
* `ProtocolParameters.validate` — refuses limits that exclude each other, and a supply of nothing.
* `ProtocolParameters.inputRules`, `outputRules`, `unlockBlockRules` — what the limits ask of the
  arrays of a transaction.
-/

namespace UtxoWire

/-- How many tokens there are on the main network, in the smallest unit. -/
def tokenSupply : UInt64 := 2779530283277761

/-- The rules for the inputs of a transaction on the main network. -/
def inputArrayRules : ArrayRules :=
  ⟨"inputs", 1, 126, true⟩

/-- The rules for the outputs of a transaction on the main network. -/
def outputArrayRules : ArrayRules :=
  ⟨"outputs", 1, 126, true⟩

/-- The rules for unlock blocks on the main network.  They stand in the order of the inputs, so none
is asked of them. -/
def unlockBlockArrayRules : ArrayRules :=
  ⟨"unlock blocks", 1, 126, false⟩

/-- The highest output index that can be spent on the main network: the last place in a transaction
with as many outputs as allowed. -/
def maxUtxoIndex : UInt16 := 125

/-- The limits a network sets. -/
structure ProtocolParameters where
  /-- The most one output, and all outputs of a transaction together, may deposit. -/
  tokenSupply : UInt64 := UtxoWire.tokenSupply
  /-- The fewest inputs of a transaction; 0 means that there is no bound. -/
  minInputs : UInt64 := inputArrayRules.min
  /-- The most inputs of a transaction; 0 means that there is no bound. -/
  maxInputs : UInt64 := inputArrayRules.max
  /-- The fewest outputs of a transaction; 0 means that there is no bound. -/
  minOutputs : UInt64 := outputArrayRules.min
  /-- The most outputs of a transaction; 0 means that there is no bound. -/
  maxOutputs : UInt64 := outputArrayRules.max
  /-- The highest output index an input may refer to. -/
  maxUtxoIndex : UInt16 := UtxoWire.maxUtxoIndex
deriving DecidableEq

instance : Inhabited ProtocolParameters :=
  ⟨{}⟩

namespace ProtocolParameters

/-- Refuses a supply of nothing, and a least number of inputs or outputs above the greatest.  Whether
there are tokens enough for the fewest outputs is not looked at. -/
def validate (params : ProtocolParameters) : Except WireError Unit := do
  require (params.tokenSupply ≠ 0) (.invalidParameters "token supply must be greater than zero")
  require (params.maxInputs = 0 ∨ params.minInputs ≤ params.maxInputs)
    (.invalidParameters
      s!"min inputs {params.minInputs.toNat} exceeds max inputs {params.maxInputs.toNat}")
  require (params.maxOutputs = 0 ∨ params.minOutputs ≤ params.maxOutputs)
    (.invalidParameters
      s!"min outputs {params.minOutputs.toNat} exceeds max outputs {params.maxOutputs.toNat}")

/-- The rules for the inputs of a transaction. -/
def inputRules (params : ProtocolParameters) : ArrayRules :=
  inputArrayRules.withBounds params.minInputs params.maxInputs

/-- The rules for the outputs of a transaction. -/
def outputRules (params : ProtocolParameters) : ArrayRules :=
  outputArrayRules.withBounds params.minOutputs params.maxOutputs

/-- The rules for unlock blocks, whose number follows that of the inputs. -/
def unlockBlockRules (params : ProtocolParameters) : ArrayRules :=
  unlockBlockArrayRules.withBounds params.minInputs params.maxInputs

end ProtocolParameters

end UtxoWire
