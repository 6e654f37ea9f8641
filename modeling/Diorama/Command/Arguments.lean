import Diorama.Command.Grammar
import Diorama.Document.Source
import Diorama.Export.Formats
import Diorama.Number.Decimal

/-! # Arguments

The command line of the program: the options common to all commands, and the two commands.
-/

namespace Diorama.Command

structure ConvertRequest where
  input : String
  output : Option String
  format : OutputFormat
  source : SourceFormat
  strict : Bool
  timestamp : Option Nat
deriving DecidableEq, Repr

inductive Request where
  | convert (request : ConvertRequest)
  | reencode (input output : String)
deriving DecidableEq, Repr

def Request.input : Request → String
  | .convert r => r.input
  | .reencode input _ => input

def Request.outputPath : Request → String
  | .convert r => r.output.getD r.format.defaultFileName
  | .reencode _ output => output

structure Arguments where
  config : Option String
  logLevel : String
  request : Request
deriving DecidableEq, Repr

def formats : List (String × OutputFormat) := OutputFormat.all.map fun f => (f.name, f)

def sources : List (String × SourceFormat) :=
  [("auto", .auto), ("markdown", .markdown), ("html", .html), ("raw", .raw)]

/-- A whole number below two to the sixty-fourth. A plus may stand in front. -/
def timestamp? (text : String) : Option Nat :=
  let digits := if text.toList.head? = some '+' then text.toList.tail else text.toList
  if digits ≠ [] ∧ digits.all Char.isDigit ∧ natOfDigits digits < UInt64.size then
    some (natOfDigits digits)
  else none

def anyValue : Role := .setting fun _ => none

def oneOf {α : Type} (choices : List (String × α)) : Role :=
  .setting fun value => if (choices.lookup value).isSome then none else some .invalidValue

def commonOptions : List OptionRule :=
  [⟨"config", some 'c', anyValue⟩, ⟨"log-level", none, anyValue⟩, ⟨"help", some 'h', .help⟩]

def outputOption : OptionRule := ⟨"output", some 'o', anyValue⟩

def programGrammar : Grammar :=
  ⟨commonOptions ++ [⟨"version", some 'V', .version⟩], false, ["convert", "reencode", "help"]⟩

def convertGrammar : Grammar where
  options := commonOptions ++
    [outputOption, ⟨"to", none, oneOf formats⟩, ⟨"source", none, oneOf sources⟩,
      ⟨"strict", none, .switch⟩,
      ⟨"timestamp", none, .setting fun value =>
        if (timestamp? value).isSome then none else some .malformedValue⟩]
  takesOperand := true
  subcommands := []

def reencodeGrammar : Grammar := ⟨commonOptions ++ [outputOption], true, []⟩

/-- Reads the words of a command, which has to have an operand. -/
def commandWords (g : Grammar) (words : List String) :
    Except Refusal (List (String × String) × String) := do
  let (s, _) ← scan g .start words
  let s ← s.settle
  match s.operand with
  | some operand => return (s.given, operand)
  | none => throw .missingOperand

def convertRequest (given : List (String × String)) (input : String) : ConvertRequest where
  input := input
  output := given.lookup "output"
  format := ((given.lookup "to").bind fun name => formats.lookup name).getD .standard
  source := ((given.lookup "source").bind fun name => sources.lookup name).getD .auto
  strict := (given.lookup "strict").isSome
  timestamp := (given.lookup "timestamp").bind timestamp?

/-- The options and the request of a command. -/
def command (name : String) (words : List String) :
    Except Refusal (List (String × String) × Request) :=
  if name = "convert" then do
    let (given, input) ← commandWords convertGrammar words
    return (given, .convert (convertRequest given input))
  else do
    let (given, input) ← commandWords reencodeGrammar words
    return (given, .reencode input ((given.lookup "output").getD OutputFormat.gltf.defaultFileName))

/-- The answer to a request for help. Only the names of commands can follow, and they have no
commands of their own. -/
def helpOn : List String → Refusal
  | [] => .help
  | [name] => if name ∈ programGrammar.subcommands then .help else .invalidSubcommand
  | _ => .invalidSubcommand

/-- Reads a command line without the name of the program. Common options count in both places; those
after the command win. -/
def arguments (words : List String) : Except Refusal Arguments := do
  let (s, rest) ← scan programGrammar .start words
  match rest with
  | some ("help", words) => throw (helpOn words)
  | some (name, words) =>
    let (given, request) ← command name words
    let s ← s.settle
    let given := given ++ s.given
    return ⟨given.lookup "config", (given.lookup "log-level").getD "info", request⟩
  | none =>
    let s ← s.settle
    if s.given = [] then throw .nothingGiven else throw .missingSubcommand

end Diorama.Command
