import PowRules.Text

/-! The texts that the command line prints when it is asked for help or for its version. -/
namespace PowRules.CommandLine

/-- The name and the version, as the version option prints them. -/
def versionText : String :=
  "xrc-powtool 0.1.0\n"

def helpText (lines : List String) : String :=
  String.intercalate "\n" lines ++ "\n"

def networkHelp : String :=
  "      --network <NETWORK>      Network parameters to use: mainnet, testnet or regtest"

def logLevelHelp : String :=
  "      --log-level <LOG_LEVEL>  Log filter, e.g. `info` or `xrc_consensus=trace`"

def chainHelp : String :=
  "      --chain <CHAIN>          Chain file (JSON)"

def optionHelp : String :=
  "  -h, --help                   Print help"

def toolHelp : String :=
  helpText
    ["Tool configuration resolved from CLI/env/defaults", "",
      "Usage: xrc-powtool [OPTIONS] <COMMAND>", "",
      "Commands:",
      "  bits       Decode compact bits and print the full target",
      "  next-bits  Print the bits the next block on top of a chain file must carry",
      "  check      Replay a chain file through the difficulty and spacing rules",
      "  help       Print this message or the help of the given subcommand(s)", "",
      "Options:", networkHelp, logLevelHelp, optionHelp,
      "  -V, --version                Print version"]

def bitsHelp : String :=
  helpText
    ["Decode compact bits and print the full target", "",
      "Usage: xrc-powtool bits [OPTIONS] <BITS>", "",
      "Arguments:",
      "  <BITS>  Compact bits as hex, e.g. 1d00ffff", "",
      "Options:", networkHelp, logLevelHelp, optionHelp]

def nextBitsHelp : String :=
  helpText
    ["Print the bits the next block on top of a chain file must carry", "",
      "Usage: xrc-powtool next-bits [OPTIONS] --chain <CHAIN> --time <TIME>", "",
      "Options:", chainHelp, networkHelp, logLevelHelp,
      "      --time <TIME>            Unix time of the next block", optionHelp]

def checkHelp : String :=
  helpText
    ["Replay a chain file through the difficulty and spacing rules", "",
      "Usage: xrc-powtool check [OPTIONS] --chain <CHAIN>", "",
      "Options:", chainHelp, networkHelp, logLevelHelp, optionHelp]

def helpHelp : String :=
  helpText
    ["Print this message or the help of the given subcommand(s)", "",
      "Usage: xrc-powtool help [COMMAND]...", "",
      "Arguments:",
      "  [COMMAND]...  Print help for the subcommand(s)"]

/-! The arguments of the command line. Options may stand before or after the command, and `--` makes
everything behind it operands.

A value may be attached to its option (`--name=value`) or be the next argument (`--name value`). An attached
value counts at once. A value of its own is held back until something behind it at the same level settles it,
and an option in front of a command is settled only when the arguments of the command are read. So a text that
the command is asked for is given before a fault in the last option in front of it is seen. -/

inductive Command where
  /-- Show the target of a compact word. -/
  | bits (text : String)
  /-- Show the bits required on top of a chain file. -/
  | nextBits (chain : String) (time : UInt32)
  /-- Audit a chain file. -/
  | check (chain : String)
deriving DecidableEq

/-- What the arguments ask for, with the name of the network where it is given. -/
structure Request where
  network : Option String
  command : Command
deriving DecidableEq

inductive Arguments where
  /-- They are not usable. -/
  | usage
  /-- They ask for a text. -/
  | text (text : String)
  | request (request : Request)
deriving DecidableEq

inductive Form where
  | separator
  | long (name : String) (value : Option String)
  /-- The letter behind a single dash. -/
  | short (letter : Char)
  | operand
deriving DecidableEq

/-- The form of an argument. A lone dash is an operand. -/
def Form.of (argument : String) : Form :=
  match argument.toList with
  | ['-', '-'] => separator
  | '-' :: '-' :: rest =>
      let name := String.ofList (rest.takeWhile (· ≠ '='))
      match rest.dropWhile (· ≠ '=') with
      | [] => long name none
      | _ :: value => long name (some (String.ofList value))
  | '-' :: letter :: _ => short letter
  | _ => operand

/-- What may stand at one level of the command line: before the command, or behind it. -/
structure Level where
  /-- The options that take a value, with the test a value has to pass. -/
  options : List (String × (String → Bool))
  operands : Nat
  commands : List String
  hasVersion : Bool
  help : String

/-- What was found at one level. -/
structure Given where
  /-- The settled options with their values, the last one first. -/
  values : List (String × String) := []
  operands : List String := []
  /-- The option that is not settled yet, with its value. -/
  heldBack : Option (String × String) := none

inductive Scan where
  | usage
  | text (text : String)
  /-- All arguments are read. -/
  | finished (given : Given)
  /-- A command was met, with the arguments behind it. What is held back in front of it stays so. -/
  | command (given : Given) (name : String) (rest : List String)

namespace Level

/-- Take the value of an option, which may be given once and has to pass its test. -/
def take? (level : Level) (given : Given) (name value : String) : Option Given :=
  match level.options.lookup name with
  | some accepts =>
      if accepts value ∧ (given.values.lookup name).isNone then
        some { given with values := (name, value) :: given.values }
      else none
  | none => none

/-- Hold back an option of the level with the argument behind it, which must not look like an option. -/
def holdBack? (level : Level) (given : Given) (name value : String) : Option Given :=
  if (level.options.lookup name).isSome ∧ Form.of value = .operand then
    some { given with heldBack := some (name, value) }
  else none

/-- Take the option that is held back, if there is one. -/
def settle? (level : Level) (given : Given) : Option Given :=
  match given.heldBack with
  | some (name, value) => level.take? { given with heldBack := none } name value
  | none => some given

/-- The text that an argument asks for, if it does. -/
def textOf? (level : Level) : Form → Option String
  | .long "help" none | .short 'h' => some level.help
  | .long "version" none | .short 'V' => if level.hasVersion then some versionText else none
  | _ => none

/-- Take an operand, if there is room for one. -/
def takeOperand? (level : Level) (given : Given) (operand : String) : Option Given :=
  if given.operands.length < level.operands then
    some { given with operands := given.operands ++ [operand] }
  else none

/-- Take all arguments as operands. -/
def scanOperands (level : Level) (given : Given) : List String → Scan
  | [] => .finished given
  | argument :: rest =>
      match level.takeOperand? given argument with
      | some given => scanOperands level given rest
      | none => .usage

/-- Read the arguments from the left. The first fault counts, and so does a text asked for. Everything but
the name of a command settles the option in front of it. -/
def scan (level : Level) (given : Given) : List String → Scan
  | [] =>
      match level.settle? given with
      | some given => .finished given
      | none => .usage
  | argument :: rest =>
      if argument ∈ level.commands then .command given argument rest
      else
        match level.settle? given with
        | none => .usage
        | some given =>
            match Form.of argument with
            | .separator => level.scanOperands given rest
            | .operand =>
                match level.takeOperand? given argument with
                | some given => scan level given rest
                | none => .usage
            | .long name (some value) =>
                match level.take? given name value with
                | some given => scan level given rest
                | none => .usage
            | form =>
                match level.textOf? form, form, rest with
                | some asked, _, _ => .text asked
                | none, .long name _, value :: rest =>
                    match level.holdBack? given name value with
                    | some given => scan level given rest
                    | none => .usage
                | _, _, _ => .usage

end Level

/-- The options that every level has. Their values are not tested here. -/
def sharedOptions : List (String × (String → Bool)) :=
  [("network", fun _ => true), ("log-level", fun _ => true)]

def chainOption : String × (String → Bool) :=
  ("chain", (· ≠ ""))

def timeOption : String × (String → Bool) :=
  ("time", fun text => (Decimal.word? text.toList).isSome)

def toolLevel : Level where
  options := sharedOptions
  operands := 0
  commands := ["bits", "next-bits", "check", "help"]
  hasVersion := true
  help := toolHelp

/-- A level behind a command. -/
def commandLevel (options : List (String × (String → Bool))) (operands : Nat) (help : String) :
    Level where
  options := sharedOptions ++ options
  operands := operands
  commands := []
  hasVersion := false
  help := help

def bitsLevel : Level :=
  commandLevel [] 1 bitsHelp

def nextBitsLevel : Level :=
  commandLevel [chainOption, timeOption] 0 nextBitsHelp

def checkLevel : Level :=
  commandLevel [chainOption] 0 checkHelp

/-- The help text of the command that some names lead to. -/
def helpFor : List String → Arguments
  | [] => .text toolHelp
  | ["bits"] => .text bitsHelp
  | ["next-bits"] => .text nextBitsHelp
  | ["check"] => .text checkHelp
  | ["help"] => .text helpHelp
  | _ => .usage

/-- Read what stands behind a command and build the request. What is held back in front of the command is
settled last. The network named behind the command counts before the one named in front. -/
def readCommand (level : Level) (front : Given) (rest : List String)
    (build : Given → Option Command) : Arguments :=
  match level.scan {} rest with
  | .text asked => .text asked
  | .finished given =>
      match build given, toolLevel.settle? front with
      | some command, some front =>
          let network := (given.values.lookup "network").orElse fun _ =>
            front.values.lookup "network"
          .request ⟨network, command⟩
      | _, _ => .usage
  | _ => .usage

/-- Read all arguments. The names behind `help` are read before what is held back in front of it. -/
def Arguments.read (arguments : List String) : Arguments :=
  match toolLevel.scan {} arguments with
  | .text asked => .text asked
  | .command front "bits" rest =>
      readCommand bitsLevel front rest fun given => given.operands.head?.map .bits
  | .command front "next-bits" rest =>
      readCommand nextBitsLevel front rest fun given => do
        let chain ← given.values.lookup "chain"
        let time ← given.values.lookup "time"
        let time ← Decimal.word? time.toList
        return .nextBits chain time
  | .command front "check" rest =>
      readCommand checkLevel front rest fun given => (given.values.lookup "chain").map .check
  | .command _ "help" rest => helpFor rest
  | _ => .usage

end PowRules.CommandLine
