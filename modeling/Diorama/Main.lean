import Diorama.Command.Run
import Diorama.Conversion.Report

/-! # The program

Reads the files that a command asks for, and replaces its output file if everything succeeds.
-/

namespace Diorama.Program

def usage : String :=
  "Usage: stratum [OPTIONS] <COMMAND>\n\n" ++
  "Commands:\n" ++
  "  convert [OPTIONS] <INPUT>   convert a diagram document into geometry or layout metadata\n" ++
  "  reencode [OPTIONS] <INPUT>  re-encode an OBJ mesh as a glTF scene\n" ++
  "  help [COMMAND]              print this message\n\n" ++
  "Options:\n" ++
  "  -c, --config <CONFIG>        path to configuration file (TOML)\n" ++
  "      --log-level <LOG_LEVEL>  accepted for all commands\n" ++
  "  -h, --help                   print this message\n" ++
  "  -V, --version                print the version\n\n" ++
  "Options of convert: -o, --output <OUTPUT>; --to <obj|gltf|layout>;\n" ++
  "  --source <auto|markdown|html|raw>; --strict; --timestamp <SECS>\n" ++
  "Options of reencode: -o, --output <OUTPUT>"

def refusalText : Command.Refusal → String
  | .help | .nothingGiven => usage
  | .version => "stratum 0.1.0"
  | .missingSubcommand => "error: a command is required"
  | .invalidSubcommand => "error: unrecognized command"
  | .missingOperand => "error: the input is missing"
  | .unknownArgument => "error: unexpected argument"
  | .invalidValue | .malformedValue => "error: invalid value"
  | .givenTwice => "error: an option cannot be used more than once"
  | .unwantedValue => "error: unexpected value"

def faultOf : IO.Error → FileFault
  | .noFileOrDirectory .. => .notFound
  | .inappropriateType .. => .isADirectory
  | .permissionDenied .. => .permissionDenied
  | .invalidArgument .. => .invalidInput
  | .resourceBusy .. => .resourceBusy
  | _ => .other

def readFile (path : String) : IO (Except FileFault ByteArray) := do
  try return .ok (← IO.FS.readBinFile path) catch e => return .error (faultOf e)

/-- What was read tells whether something stands there. -/
def isPresent : Except FileFault ByteArray → Bool
  | .ok _ | .error .isADirectory | .error .permissionDenied => true
  | .error _ => false

/-- The files that a command may ask for. -/
def filesFor (userSettings : String) (a : Command.Arguments) : IO Command.Files := do
  let paths :=
    (a.config.toList ++ [Command.localSettings, userSettings, a.request.input]).eraseDups
  let contents ← paths.mapM fun path => return (path, ← readFile path)
  let read := fun path => (contents.lookup path).getD (.error .notFound)
  return ⟨fun path => isPresent (read path), read⟩

/-- Writes a whole file beside the old one and lets it take the place, or takes it away again. -/
def replaceFile (o : Command.Output) : IO (Except FileFault Unit) := do
  let prepared := o.path ++ ".part"
  try
    IO.FS.writeFile prepared o.text
    IO.FS.rename prepared o.path
    return .ok ()
  catch e =>
    try IO.FS.removeFile prepared catch _ => pure ()
    return .error (faultOf e)

/-- The settings of the user, below an absolute directory. -/
def userSettingsPath : IO String := do
  let directory := (← IO.getEnv "XDG_CONFIG_HOME").filter Path.isAbsolute
  let home := (← IO.getEnv "HOME").filter (· ≠ "")
  return match directory, home with
  | some directory, _ => directory ++ "/stratum/config.toml"
  | none, some home => home ++ "/.config/stratum/config.toml"
  | none, none => ""

def reportText (r : Report) : String :=
  let code := (r.code.map fun code => "[" ++ code ++ "] ").getD ""
  let help := (r.help.map fun help => "\n  help: " ++ help).getD ""
  code ++ r.message ++ help

def runArguments (a : Command.Arguments) : IO (Except Failure Unit) := do
  let userSettings ← userSettingsPath
  match Command.plan (← filesFor userSettings a) userSettings a with
  | .error failure => return .error failure
  | .ok output => return (← replaceFile output).mapError .file

end Diorama.Program

open Diorama in
def main (words : List String) : IO UInt32 := do
  match Command.arguments words with
  | .error refusal =>
    let text := Program.refusalText refusal
    if refusal = .help ∨ refusal = .version then
      IO.println text
      return 0
    else
      IO.eprintln text
      return 2
  | .ok a =>
    match ← Program.runArguments a with
    | .ok () => return 0
    | .error failure =>
      for report in failure.reports do
        IO.eprintln (Program.reportText report)
      return 1
