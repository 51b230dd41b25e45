import UtxoWire.CommandLine.Arguments
import UtxoWire.Family.Objects

/-!
# Carrying out commands

What each command does, as a function of its arguments and of the one document it may read.

* `Failure` — what went wrong, as a message and its causes, and `Failure.report`, the text of it.
* `parseHex` — bytes given on the command line.
* `decodeBytes`, `encodeText`, `identify`, `checkBytes` — the commands on bytes and texts.
* `Command.perform` — a command as a whole, up to the text it prints.
* `Outcome` — what a run leaves behind.
-/

namespace UtxoWire.CommandLine

open JsonForm

/-! ## Failures -/

/-- What went wrong: a message, and what caused it, the nearest cause first. -/
structure Failure where
  /-- What went wrong. -/
  message : String
  /-- What caused it. -/
  causes : List String := []
deriving DecidableEq

namespace Failure

/-- The failure of an object; what it wraps are its causes. -/
def ofWireError (error : WireError) : Failure :=
  ⟨error.message, error.messages.tail⟩

/-- Puts a failure behind a message that says what was being done. -/
def within (message : String) (failure : Failure) : Failure :=
  ⟨message, failure.message :: failure.causes⟩

/-- A cause with its number. -/
def numbered (cause : String × Nat) : String :=
  String.ofList (List.leftpad 5 ' ' (Nat.toDigits 10 cause.2)) ++ ": " ++ cause.1

/-- The text of a failure.  Causes are numbered if there is more than one. -/
def report (failure : Failure) : String :=
  let causes :=
    match failure.causes with
    | [] => ""
    | [cause] => "\n\nCaused by:\n    " ++ cause
    | causes => "\n\nCaused by:\n" ++ "\n".intercalate (causes.zipIdx.map numbered)
  "Error: " ++ failure.message ++ causes

end Failure

/-- Reports the failure of an object. -/
def wire {α : Type} (result : Except WireError α) : Except Failure α :=
  result.mapError Failure.ofWireError

/-! ## Bytes and documents -/

/-- Whether Unicode counts a character as white space. -/
def isWhiteSpace (c : Char) : Bool :=
  let code := c.toNat
  (9 ≤ code && code ≤ 13) || code = 0x20 || code = 0x85 || code = 0xA0 || code = 0x1680 ||
    (0x2000 ≤ code && code ≤ 0x200A) || code = 0x2028 || code = 0x2029 || code = 0x202F ||
    code = 0x205F || code = 0x3000

/-- The bytes that a word spells in hexadecimal.  White space may stand anywhere, and one `0x` in
front of what is left. -/
def parseHex (word : String) : Except Failure Bytes :=
  let digits := String.ofList (word.toList.filter fun c => !isWhiteSpace c)
  (Hex.decode (Hex.stripMark (utf8 digits))).mapError fun fault =>
    .within "input is not valid hex" ⟨fault.message, []⟩

/-- Where a document is. -/
inductive Source
  | standardInput
  | file (path : String)
deriving DecidableEq

/-- The text of a document, or why it cannot be had. -/
abbrev Contents := Except String String

/-- The document that holds an object's description; a dash stands for standard input. -/
def Source.ofWord (word : String) : Source :=
  if word = "-" then .standardInput else .file word

/-- How a document is named when it cannot be read. -/
def Source.text : Source → String
  | .standardInput => "stdin"
  | .file path => path

/-- The protocol parameters in the document at a path, or the default ones if there is no path. -/
def loadParams (path : Option String) (contents : Contents) :
    Except Failure ProtocolParameters :=
  match path with
  | none => .ok {}
  | some path => do
    let text ← contents.mapError fun reason =>
      .within s!"failed to read parameters from {path}" ⟨reason, []⟩
    (wire (ProtocolParameters.ofText text)).mapError (.within s!"invalid parameters in {path}")

/-! ## Commands -/

/-- Describes the object that takes up all the bytes, and says how many they are. -/
def decodeBytes (family : Family) (data : Bytes) (mode : Mode) (params : ProtocolParameters) :
    Except Failure (Json × Nat) := do
  let object ← wire ((family.codec params).decodeExact mode data)
  return (toJson object, data.length)

/-- The text that describes what was decoded: the members of every object in the order of their
keys. -/
def describe (value : Json) (length : Nat) : String :=
  (Json.ofFields [("bytes", .natural length), ("value", value)]).sortKeys.prettyText

/-- The bytes of the object that a text describes. -/
def encodeText (family : Family) (text : String) (mode : Mode) : Except Failure Bytes := do
  let object : family.Object ← (parse text).mapError fun (_ : Misfit) =>
    .within "JSON does not describe this kind" ⟨unreadableText, []⟩
  wire ((family.codec {}).encode mode object)

/-- The transaction that takes up all the bytes. -/
def decodeTransaction (data : Bytes) (params : ProtocolParameters) : Except Failure Transaction :=
  wire ((Transaction.codec params).decodeExact .validated data)

/-- The identifier, under a given digest, of the signed transaction that takes up all the bytes. -/
def identifyWith (digest : Bytes → TransactionId) (data : Bytes) :
    Except Failure TransactionId := do
  match ← decodeTransaction data {} with
  | .signed tx => wire (tx.idWith digest)
  | .unsigned _ => throw ⟨"only signed transactions have an ID", []⟩

/-- The identifier of the signed transaction that takes up all the bytes. -/
def identify (data : Bytes) : Except Failure TransactionId :=
  identifyWith Blake3.hash data

/-- What is said of a transaction that passed. -/
def summary (tx : Transaction) (total : UInt64) : String :=
  let inputs := tx.unsignedPart.inputs.length
  let outputs := tx.unsignedPart.outputs.length
  s!"ok: {tx.typeName} with {inputs} inputs, {outputs} outputs, {total.toNat} deposited"

/-- Holds the transaction that takes up all the bytes against the rules on values, and sums it
up. -/
def checkBytes (data : Bytes) (params : ProtocolParameters) : Except Failure String := do
  let tx ← decodeTransaction data params
  (wire (tx.syntacticallyValid params)).mapError
    (.within "transaction is not syntactically valid")
  let total ← wire tx.unsignedPart.totalDeposit
  return summary tx total

/-- Which build this is. -/
def versionText : String :=
  "ledger-wire 0.1.0\nrustc       unknown"

/-! ## Runs -/

namespace Command

/-- The document that a command reads. -/
def source? : Command → Option Source
  | .decode _ _ _ (some path) | .check _ (some path) => some (.file path)
  | .encode _ source _ => some (.ofWord source)
  | _ => none

/-- Carries out a command, given what is in the document it reads, and gives the text it prints. -/
def perform (command : Command) (contents : Contents) : Except Failure String :=
  match command with
  | .decode family hex mode paramsPath => do
    let params ← loadParams paramsPath contents
    let data ← parseHex hex
    let (value, length) ← decodeBytes family data mode params
    return describe value length
  | .encode family source mode => do
    let text ← contents.mapError fun reason =>
      .within s!"failed to read {(Source.ofWord source).text}" ⟨reason, []⟩
    let data ← encodeText family text mode
    return Hex.text data
  | .transactionId hex => do
    let data ← parseHex hex
    let id ← identify data
    return Hex.text id.bytes
  | .check hex paramsPath => do
    let params ← loadParams paramsPath contents
    let data ← parseHex hex
    checkBytes data params
  | .version => return versionText
  | .programVersion name => return name ++ " 0.1.0"

end Command

/-- What a run leaves behind. -/
structure Outcome where
  /-- The exit code: 0 for success, 1 for a failure, 2 for arguments used improperly. -/
  exitCode : Nat
  /-- What is printed. -/
  output : String
  /-- What is reported. -/
  report : String
deriving DecidableEq

/-- What a run of a command leaves behind. -/
def outcome (command : Command) (contents : Contents) : Outcome :=
  match command.perform contents with
  | .ok text => ⟨0, text ++ "\n", ""⟩
  | .error failure => ⟨1, "", failure.report ++ "\n"⟩

/-- What is left behind when the arguments ask for nothing there is. -/
def Outcome.improper : Outcome :=
  ⟨2, "", "error: the arguments do not name a command and what it needs\n"⟩

end UtxoWire.CommandLine
