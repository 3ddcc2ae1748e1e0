import PowRules.Rules
import PowRules.ChainFile
import PowRules.CommandLine.Arguments

namespace PowRules.CommandLine

/-- What a run leaves behind: its status, its output, and on failure the report of the error. -/
structure Outcome where
  status : Nat
  output : String := ""
  report : Option String := none
deriving DecidableEq

/-- A text whose lines, after the first one, stand behind some indent. -/
def indented (indent text : String) : String :=
  (text.splitOn "\n") |> String.intercalate ("\n" ++ indent)

/-- The causes of an error. Two or more of them are numbered. -/
def causeLines : List String → List String
  | [cause] => ["    " ++ indented "    " cause]
  | causes => causes.mapIdx fun index cause =>
      "".pushn ' ' (5 - (toString index).length) ++ s!"{index}: " ++ indented "       " cause

/-- The report of an error from its message and the messages of its causes, without white space at
its end. -/
def reportText : List String → String
  | [] => ""
  | message :: [] => trimEnd message
  | message :: causes =>
      trimEnd (message ++ "\n\nCaused by:\n" ++ String.intercalate "\n" (causeLines causes))
where
  trimEnd (text : String) : String :=
    String.ofList (text.toList.reverse.dropWhile Blank.isBlank).reverse

def Outcome.ofText (text : String) : Outcome where
  status := 0
  output := text

def Outcome.ofError (messages : List String) : Outcome where
  status := 1
  report := some (reportText messages)

def Outcome.usage : Outcome where
  status := 2

def Command.chainPath? : Command → Option String
  | .bits _ => none
  | .nextBits chain _ => some chain
  | .check chain => some chain

/-- The target of a compact word, and its own compact form. -/
def showBits (text : String) : Outcome :=
  match Compact.parse text with
  | .error error => .ofError error.messages
  | .ok bits =>
      match Target.ofBits bits with
      | .error error => .ofError [error.message]
      | .ok target =>
          .ofText s!"target    {target.text}\ncanonical {Compact.text target.bits}\n"

/-- The bits required on top of a segment. -/
def showNextBits (params : Params) (segment : Segment) (time : UInt32) : Outcome :=
  match segment.tip with
  | none => .ofError ["chain file has no headers"]
  | some tip =>
      match requiredBits params tip time with
      | .ok bits => .ofText s!"{Compact.text bits}\n"
      | .error error =>
          .ofError [s!"computing bits on top of height {tip.height}", error.message]

def showAudit (params : Params) (segment : Segment) : Outcome :=
  match segment.audit params with
  | .ok count => .ofText s!"ok: {count} headers checked\n"
  | .error rejection => .ofError [rejection.message]

def Command.run (params : Params) (content : Except FileError ByteArray) : Command → Outcome
  | .bits text => showBits text
  | .nextBits chain time =>
      match ChainFile.load chain content with
      | .error error => .ofError error.messages
      | .ok segment => showNextBits params segment time
  | .check chain =>
      match ChainFile.load chain content with
      | .error error => .ofError error.messages
      | .ok segment => showAudit params segment

/-- Run a request. The network is the one named, else the one the environment names, else mainnet. -/
def Request.run (request : Request) (environment : Option String)
    (content : Except FileError ByteArray) : Outcome :=
  match Network.parse ((request.network.orElse fun _ => environment).getD "mainnet") with
  | .error error => .ofError [error.message]
  | .ok network => request.command.run (Params.ofNetwork network) content

/-- Run the tool on its arguments. Files are looked up by their path. -/
def run (arguments : List String) (environment : Option String)
    (files : String → Except FileError ByteArray) : Outcome :=
  match Arguments.read arguments with
  | .usage => .usage
  | .text text => .ofText text
  | .request request =>
      request.run environment
        (match request.command.chainPath? with
        | some path => files path
        | none => .error .absent)

end PowRules.CommandLine
