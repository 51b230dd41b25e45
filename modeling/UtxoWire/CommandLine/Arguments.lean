import UtxoWire.Codec

/-!
# Arguments

What the command line asks for.  Options may stand anywhere, each at most once, with the value in
the same argument behind an equals sign or in the next argument.  Two dashes end the options.  The
options for the log may also stand in front of the command.

* `Command` — what there is to ask for.
* `Token.lex` — tells options from plain words.
* `Command.ofArguments?` — the command that arguments ask for, if they are used properly.
-/

namespace UtxoWire.CommandLine

/-! ## Commands -/

/-- What the command line is asked to do. -/
inductive Command
  /-- Describe bytes given in hexadecimal. -/
  | decode (family : Family) (hex : String) (mode : Mode) (paramsPath : Option String)
  /-- Give the bytes of a description. -/
  | encode (family : Family) (source : String) (mode : Mode)
  /-- Give the identifier of a signed transaction. -/
  | transactionId (hex : String)
  /-- Hold a transaction against the rules on values. -/
  | check (hex : String) (paramsPath : Option String)
  /-- Say which build this is. -/
  | version
  /-- Say which version of a program or subprogram this is. -/
  | programVersion (name : String)
deriving DecidableEq

/-- The names of the commands. -/
inductive CommandName
  | decode
  | encode
  | transactionId
  | check
  | version
deriving DecidableEq

/-- How a command is written. -/
def CommandName.text : CommandName → String
  | .decode => "decode"
  | .encode => "encode"
  | .transactionId => "tx-id"
  | .check => "check"
  | .version => "version"

/-- The command that a word names. -/
def CommandName.ofText? (text : String) : Option CommandName :=
  [.decode, .encode, .transactionId, .check, .version].find? fun name => name.text = text

/-- How a family is written as an argument. -/
def familyText : Family → String
  | .address => "address"
  | .input => "input"
  | .output => "output"
  | .signature => "signature"
  | .unlockBlock => "unlock-block"
  | .transaction => "transaction"

/-- The family that a word names. -/
def family? (text : String) : Option Family :=
  [.address, .input, .output, .signature, .unlockBlock, .transaction].find?
    fun family => familyText family = text

/-- The name of the program. -/
def programName : String := "ledger-wire"

/-! ## Options -/

/-- The options. -/
inductive Flag
  /-- Leave the rules out. -/
  | noValidate
  /-- Where the protocol parameters are. -/
  | params
  /-- How much is logged. -/
  | logLevel
  /-- How the log is written. -/
  | logFormat
  /-- Ask for the version of the program. -/
  | showVersion
deriving DecidableEq

namespace Flag

/-- The option that a name of several letters stands for. -/
def ofName? : String → Option Flag
  | "no-validate" => some .noValidate
  | "params" => some .params
  | "log-level" => some .logLevel
  | "log-format" => some .logFormat
  | "version" => some .showVersion
  | _ => none

/-- Whether the option has a value. -/
def takesValue : Flag → Bool
  | .params | .logLevel | .logFormat => true
  | .noValidate | .showVersion => false

/-- Whether the option can have this value. -/
def accepts (flag : Flag) (value : String) : Bool :=
  match flag with
  | .params => value ≠ ""
  | .logFormat => value = "pretty" || value = "json"
  | _ => true

/-- The options that may stand anywhere. -/
def everywhere : List Flag :=
  [.logLevel, .logFormat, .showVersion]

end Flag

/-- The options a command has. -/
def CommandName.flags : CommandName → List Flag
  | .decode => [.noValidate, .params] ++ Flag.everywhere
  | .encode => .noValidate :: Flag.everywhere
  | .check => .params :: Flag.everywhere
  | .transactionId | .version => Flag.everywhere

/-- What each of the words after a command has to be. -/
def CommandName.operands : CommandName → List (String → Bool)
  | .decode | .encode => [fun word => (family? word).isSome, fun _ => true]
  | .transactionId | .check => [fun _ => true]
  | .version => []

/-! ## Tokens -/

/-- What an argument is, together with the next one if that is its value. -/
inductive Token
  /-- A plain word. -/
  | word (text : String)
  /-- A word after the end of the options. -/
  | operand (text : String)
  /-- An option, with its value if it has one. -/
  | option (flag : Flag) (value : String)
  /-- An option there is not, or one with a value too many or too few. -/
  | improper

namespace Token

/-- Whether an argument begins an option: a dash alone is a plain word. -/
def isOption (argument : String) : Bool :=
  match argument.toList with
  | '-' :: _ :: _ => true
  | _ => false

/-- The option that an argument is, and the value in the same argument. -/
def option? (argument : String) : Option (Flag × Option String) :=
  match argument.toList with
  | '-' :: '-' :: body =>
    let name := body.takeWhile (· ≠ '=')
    let value :=
      match body.dropWhile (· ≠ '=') with
      | _ :: value => some (String.ofList value)
      | [] => none
    (Flag.ofName? (String.ofList name)).map fun flag => (flag, value)
  | '-' :: 'V' :: _ => some (.showVersion, none)
  | _ => none

/-- Tells options from plain words.  Nothing is looked at after an improper option. -/
def lex : List String → List Token
  | [] => []
  | argument :: rest =>
    if argument = "--" then rest.map .operand
    else if isOption argument then
      match option? argument with
      | none => [.improper]
      | some (flag, some value) =>
        if flag.takesValue then .option flag value :: lex rest else [.improper]
      | some (flag, none) =>
        if flag.takesValue then
          match rest with
          | [] => [.improper]
          | value :: rest => if isOption value then [.improper] else .option flag value :: lex rest
        else .option flag "" :: lex rest
    else .word argument :: lex rest

end Token

/-! ## From tokens to commands -/

/-- What has been given so far. -/
structure Given where
  /-- The options, the last one first. -/
  flags : List (Flag × String) := []
  /-- The words, in order. -/
  words : List String := []

namespace Given

/-- Takes an option, which must be one of those allowed, with a value it can have, and new. -/
def addFlag? (given : Given) (allowed : List Flag) (flag : Flag) (value : String) :
    Option Given :=
  if allowed.contains flag && flag.accepts value && (given.flags.lookup flag).isNone then
    some { given with flags := (flag, value) :: given.flags }
  else none

/-- Takes a word, which must be what is asked for at its place. -/
def addWord? (given : Given) (operands : List (String → Bool)) (word : String) : Option Given :=
  match operands[given.words.length]? with
  | some accepts => if accepts word then some { given with words := given.words ++ [word] } else none
  | none => none

/-- The mode that the options ask for. -/
def mode (given : Given) : Mode :=
  if (given.flags.lookup .noValidate).isSome then .structural else .validated

end Given

/-- The command with a name, once all has been given. -/
def CommandName.command? (name : CommandName) (given : Given) : Option Command :=
  match name, given.words with
  | .decode, [family, hex] =>
    (family? family).map fun family => .decode family hex given.mode (given.flags.lookup .params)
  | .encode, [family, source] =>
    (family? family).map fun family => .encode family source given.mode
  | .transactionId, [hex] => some (.transactionId hex)
  | .check, [hex] => some (.check hex (given.flags.lookup .params))
  | .version, [] => some .version
  | _, _ => none

/-- Goes through what follows the name of a command. -/
def afterName? (name : CommandName) : List Token → Given → Option Command
  | [], given => name.command? given
  | token :: tokens, given =>
    match token with
    | .option .showVersion _ => some (.programVersion (programName ++ "-" ++ name.text))
    | .option flag value =>
      (given.addFlag? name.flags flag value).bind (afterName? name tokens)
    | .word word | .operand word =>
      (given.addWord? name.operands word).bind (afterName? name tokens)
    | .improper => none

/-- Goes through what comes before the name of a command. -/
def beforeName? : List Token → Given → Option Command
  | [], _ => none
  | token :: tokens, given =>
    match token with
    | .option .showVersion _ => some (.programVersion programName)
    | .option flag value => (given.addFlag? Flag.everywhere flag value).bind (beforeName? tokens)
    | .word word => (CommandName.ofText? word).bind fun name => afterName? name tokens {}
    | .operand _ | .improper => none

/-- The command that arguments ask for, if they are used properly. -/
def Command.ofArguments? (arguments : List String) : Option Command :=
  beforeName? (Token.lex arguments) {}

end UtxoWire.CommandLine
