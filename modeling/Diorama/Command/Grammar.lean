/-! # Command lines

A command line is read word by word against a `Grammar`: its options, whether it takes an operand,
and its subcommands. The value of an option is only checked when the next option, the operand or the
end of the line is reached, and the first fault counts.
-/

namespace Diorama.Command

/-- Why a command line is refused, or answered without running anything. -/
inductive Refusal where
  | help
  | version
  | nothingGiven
  | missingSubcommand
  | invalidSubcommand
  | missingOperand
  | unknownArgument
  | invalidValue
  | malformedValue
  | givenTwice
  | unwantedValue
deriving DecidableEq, Repr

/-- What an option is for. -/
inductive Role where
  /-- Has a value, which may be refused. -/
  | setting (refuse : String → Option Refusal)
  | switch
  | help
  | version

/-- An option, given as `--name` or, if it has one, by its letter. -/
structure OptionRule where
  name : String
  letter : Option Char
  role : Role

structure Grammar where
  options : List OptionRule
  takesOperand : Bool
  subcommands : List String

/-- A setting whose value is still to be checked, or still to come. -/
structure Pending where
  name : String
  refuse : String → Option Refusal
  value : Option String

/-- What has been read of a command line. -/
structure Scan where
  given : List (String × String)
  operand : Option String
  pending : Option Pending
  /-- Nothing more is read as an option. -/
  optionsEnded : Bool

namespace Scan

def start : Scan := ⟨[], none, none, false⟩

def record (s : Scan) (name value : String) (refuse : String → Option Refusal) :
    Except Refusal Scan :=
  if (s.given.lookup name).isSome then .error .givenTwice
  else match refuse value with
    | some refusal => .error refusal
    | none => .ok { s with given := s.given ++ [(name, value)] }

/-- Checks the pending setting. -/
def settle (s : Scan) : Except Refusal Scan :=
  match s.pending with
  | none => .ok s
  | some ⟨_, _, none⟩ => .error .invalidValue
  | some ⟨name, refuse, some value⟩ => { s with pending := none }.record name value refuse

/-- An option with the value that is attached to it, if any. -/
def apply (s : Scan) (rule : OptionRule) (attached : Option String) : Except Refusal Scan :=
  match rule.role, attached with
  | .setting refuse, some value => do (← s.settle).record rule.name value refuse
  | .setting refuse, none => do
    return { ← s.settle with pending := some ⟨rule.name, refuse, none⟩ }
  | _, some _ => .error .unwantedValue
  | .switch, none => do (← s.settle).record rule.name "" fun _ => none
  | .help, none => do
    let _ ← s.settle
    .error .help
  | .version, none => do
    let _ ← s.settle
    .error .version

/-- `--name` or `--name=value`, without the dashes. -/
def long (g : Grammar) (s : Scan) (text : List Char) : Except Refusal Scan :=
  let name := String.ofList (text.takeWhile (· ≠ '='))
  let attached := match text.dropWhile (· ≠ '=') with
    | _ :: value => some (String.ofList value)
    | [] => none
  match g.options.find? (·.name = name) with
  | none => .error .unknownArgument
  | some rule => s.apply rule attached

/-- Letters of options, without the dash. What follows the letter of a setting is its value. -/
def letters (g : Grammar) (s : Scan) : List Char → Except Refusal Scan
  | [] => .ok s
  | c :: rest =>
    match g.options.find? (·.letter = some c) with
    | none => .error .unknownArgument
    | some rule =>
      match rule.role, rest with
      | .setting _, [] => s.apply rule none
      | .setting _, '=' :: value => s.apply rule (some (String.ofList value))
      | .setting _, value => s.apply rule (some (String.ofList value))
      | _, rest => do (← s.apply rule none).letters g rest

/-- A word that is no option. -/
def operandWord (g : Grammar) (s : Scan) (word : String) : Except Refusal Scan :=
  if g.takesOperand ∧ s.operand = none then do
    return { ← s.settle with operand := some word }
  else if g.subcommands ≠ [] ∧ ¬(s.optionsEnded ∧ word ∈ g.subcommands) then
    .error .invalidSubcommand
  else .error .unknownArgument

/-- The value that a setting waits for. -/
def awaits? (s : Scan) : Option Pending := s.pending.filter (·.value.isNone)

end Scan

/-- Reads a command line up to its end, or up to the name of a subcommand, which is given together
with the words after it. -/
def scan (g : Grammar) (s : Scan) :
    List String → Except Refusal (Scan × Option (String × List String))
  | [] => .ok (s, none)
  | word :: words =>
    if s.optionsEnded then do
      scan g (← s.operandWord g word) words
    else if s.awaits?.isNone ∧ word ∈ g.subcommands then .ok (s, some (word, words))
    else match word.toList with
      | ['-', '-'] => scan g { s with optionsEnded := true } words
      | '-' :: '-' :: text => do scan g (← s.long g text) words
      | '-' :: c :: text => do scan g (← s.letters g (c :: text)) words
      | _ =>
        match s.awaits? with
        | some p => scan g { s with pending := some { p with value := some word } } words
        | none => do scan g (← s.operandWord g word) words

end Diorama.Command
