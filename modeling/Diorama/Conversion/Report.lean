import Diorama.Conversion.Failure

/-! # Reports

What a user is shown of a failure: one report for every diagnostic of a refused diagram, and one
report for any other failure.
-/

namespace Diorama

structure Report where
  message : String
  code : Option String
  severity : Option Severity
  help : Option String
  labels : List Label
  /-- The text that the labels point into. -/
  source : Option String
  /-- Whether another error lies beneath. -/
  hasCause : Bool
deriving DecidableEq, Repr

namespace Report

def ofDiagnostic (source : String) (d : Diagnostic) : Report :=
  ⟨d.message, d.code.map ErrorCode.text, some d.severity, d.help, d.labels, some source, false⟩

/-- The code of a failure that has no place in a diagram. -/
def code? : Failure → Option String
  | .file _ => some "stratum::io"
  | .inputNotFound _ => some "stratum::input_not_found"
  | .noDiagramBlock _ => some "stratum::no_diagram_block"
  | .emptyInput => some "stratum::empty_input"
  | .emptyGeometry .. => some "stratum::empty_geometry"
  | .invalidMesh _ => some "stratum::invalid_mesh"
  | .rejected .. => none
  | .notExported _ => some "stratum::export"
  | .settings _ => some "stratum::config"

def help? : Failure → Option String
  | .noDiagramBlock _ => some "pass `--source raw` if the file contains only diagram text"
  | .emptyGeometry .. =>
    some "a glTF scene needs at least one node; `--to obj` accepts empty diagrams"
  | _ => none

def hasCause? : Failure → Bool
  | .file _ | .noDiagramBlock _ => true
  | _ => false

end Report

def Failure.reports (f : Failure) : List Report :=
  match f with
  | .rejected diagnostics source => diagnostics.map (Report.ofDiagnostic source)
  | f => [⟨f.message, Report.code? f, none, Report.help? f, [], none, Report.hasCause? f⟩]

end Diorama
