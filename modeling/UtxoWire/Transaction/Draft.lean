import UtxoWire.ObjectArray.Sorting
import UtxoWire.Transaction.Unsigned

/-!
# Drafts

A transaction in the making.  Inputs and outputs are added in any order; they are put into the order
the wire format asks for when the draft is finished, so that what comes out can be read back.
Nothing else is checked.
-/

namespace UtxoWire

/-- A transaction in the making. -/
structure TransactionDraft where
  /-- The inputs, in the order they were added. -/
  inputs : List Input := []
  /-- The outputs, in the order they were added. -/
  outputs : List Output := []
  /-- The payload, if there is one. -/
  payload : Option Bytes := none
deriving DecidableEq, Inhabited

namespace TransactionDraft

/-- Adds an input. -/
def addInput (draft : TransactionDraft) (input : Input) : TransactionDraft :=
  { draft with inputs := draft.inputs ++ [input] }

/-- Adds an output. -/
def addOutput (draft : TransactionDraft) (output : Output) : TransactionDraft :=
  { draft with outputs := draft.outputs ++ [output] }

/-- Sets the payload; an empty one takes it away. -/
def setPayload (draft : TransactionDraft) (payload : Bytes) : TransactionDraft :=
  { draft with payload := if payload.isEmpty then none else some payload }

/-- One step of making a draft. -/
inductive Step
  | input (input : Input)
  | output (output : Output)
  | payload (payload : Bytes)

/-- Carries out a step. -/
def apply (draft : TransactionDraft) : Step → TransactionDraft
  | .input input => draft.addInput input
  | .output output => draft.addOutput output
  | .payload payload => draft.setPayload payload

/-- The draft that steps make, in the order given. -/
def ofSteps (steps : List Step) : TransactionDraft :=
  steps.foldl apply {}

/-- The transaction, with inputs and outputs in the order of their wire forms. -/
def build (draft : TransactionDraft) : Except WireError UnsignedTransaction := do
  let inputs ← ObjectArray.sort Input.codec draft.inputs
  let outputs ← ObjectArray.sort Output.codec draft.outputs
  return { inputs, outputs, payload := draft.payload }

end TransactionDraft

end UtxoWire
