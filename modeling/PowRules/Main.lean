import PowRules.CommandLine.Run

namespace PowRules.CommandLine

/-- What a failed attempt to read a file says about it. -/
def fileError : IO.Error → FileError
  | .noFileOrDirectory .. => .absent
  | .inappropriateType _ _ "not a directory" => .notDirectory
  | .inappropriateType .. => .directory
  | .invalidArgument _ _ "name too long" => .nameTooLong
  | error => .other (toString error)

def readFile (path : String) : IO (Except FileError ByteArray) := do
  match ← (IO.FS.readBinFile path).toBaseIO with
  | .ok bytes => return .ok bytes
  | .error error => return .error (fileError error)

/-- Write what a run leaves behind. -/
def finish (outcome : Outcome) : IO UInt32 := do
  IO.print outcome.output
  if let some report := outcome.report then
    IO.eprintln s!"Error: {report}"
  if outcome.status = 2 then
    IO.eprintln "error: unusable arguments, see --help"
  return UInt32.ofNat outcome.status

end PowRules.CommandLine

open PowRules.CommandLine in
def main (arguments : List String) : IO UInt32 := do
  match Arguments.read arguments with
  | .usage => finish .usage
  | .text asked => finish (.ofText asked)
  | .request request =>
      let content ←
        match request.command.chainPath? with
        | some path => readFile path
        | none => pure (.error .absent)
      finish (request.run (← IO.getEnv "XRC_NETWORK") content)
