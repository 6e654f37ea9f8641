import Diorama.Diagram.Span

/-! # Diagnostics

A diagnostic is a message about a text with labelled places in it. `Problem` lists what can be wrong
with a diagram; `Problem.diagnostic` holds all wording.
-/

namespace Diorama

inductive Severity where
  | error
  | warning
deriving DecidableEq, Repr

def Severity.text : Severity → String
  | .error => "error"
  | .warning => "warning"

inductive ErrorCode where
  | emptySource
  | unrecognizedStatement
  | unclosedRegion
  | unmatchedEnd
deriving DecidableEq, Repr

namespace ErrorCode

def all : List ErrorCode := [.emptySource, .unrecognizedStatement, .unclosedRegion, .unmatchedEnd]

def text : ErrorCode → String
  | .emptySource => "E001"
  | .unrecognizedStatement => "E100"
  | .unclosedRegion => "E101"
  | .unmatchedEnd => "E102"

def description : ErrorCode → String
  | .emptySource => "empty diagram source"
  | .unrecognizedStatement => "unrecognized statement"
  | .unclosedRegion => "unclosed subgraph"
  | .unmatchedEnd => "unmatched end"

end ErrorCode

/-- A remark on a place in the text. -/
structure Label where
  span : Span
  text : String
  isPrimary : Bool
deriving DecidableEq, Repr

structure Diagnostic where
  severity : Severity
  code : Option ErrorCode
  message : String
  labels : List Label
  help : Option String
deriving DecidableEq, Repr

/-- One line: the severity, the code in brackets, the message. -/
def Diagnostic.text (d : Diagnostic) : String :=
  d.severity.text ++ (match d.code with
    | some code => "[" ++ code.text ++ "]"
    | none => "") ++ ": " ++ d.message

/-- The first diagnostic, and how many more there are. -/
def summary : List Diagnostic → String
  | [] => ""
  | [d] => d.text
  | d :: rest => d.text ++ " (+" ++ toString rest.length ++ " more)"

/-- Whether a text was refused for being blank. -/
def reportsEmptySource (diagnostics : List Diagnostic) : Bool :=
  diagnostics.any (·.code = some .emptySource)

/-- What can be wrong with a diagram, and where. -/
inductive Problem where
  | emptySource (span : Span)
  | unrecognizedStatement (line : String) (span : Span)
  | unmatchedEnd (span : Span)
  | unclosedRegion (title : String) (opener : Span)
deriving DecidableEq, Repr

def Problem.diagnostic : Problem → Diagnostic
  | .emptySource span =>
    ⟨.error, some .emptySource, "empty diagram source", [⟨span, "nothing to parse", true⟩],
      some "declare at least one node, for example `A[Deployment: api]`"⟩
  | .unrecognizedStatement line span =>
    ⟨.error, some .unrecognizedStatement, "unrecognized statement `" ++ line ++ "`",
      [⟨span, "not a subgraph, `end`, node or edge", true⟩],
      some "nodes look like `id[label]`, edges like `a --> b`"⟩
  | .unmatchedEnd span =>
    ⟨.error, some .unmatchedEnd, "unmatched `end`", [⟨span, "no open subgraph to close", true⟩],
      none⟩
  | .unclosedRegion title opener =>
    ⟨.error, some .unclosedRegion, "subgraph `" ++ title ++ "` is never closed",
      [⟨opener, "opened here", true⟩], some "add a matching `end` line"⟩

end Diorama
