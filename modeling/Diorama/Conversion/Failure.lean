import Diorama.Diagram.Reading
import Diorama.Document.Embedded
import Diorama.Export.Exporter
import Diorama.Files.Fault
import Diorama.Obj.Reading
import Diorama.Settings

/-! # Failures

Everything that can stop a conversion, and how it is reported.
-/

namespace Diorama

/-- What can be wrong with a settings file. -/
inductive SettingsFault where
  | missing (path : String)
  | malformed
  | unusable (fault : Settings.Fault)
deriving DecidableEq, Repr

def SettingsFault.message : SettingsFault → String
  | .missing path => "Missing configuration file: " ++ path
  | .malformed => "Failed to parse TOML configuration"
  | .unusable fault => "Validation error: " ++ fault.message

inductive Failure where
  | file (fault : FileFault)
  | inputNotFound (path : String)
  | noDiagramBlock (cause : Embedded.NotFound)
  | emptyInput
  | emptyGeometry (vertices triangles : Nat)
  | invalidMesh (fault : Obj.LineFault)
  | rejected (diagnostics : List Diagnostic) (source : String)
  | notExported (cause : ExportError)
  | settings (fault : SettingsFault)
deriving DecidableEq, Repr

namespace Failure

/-- Diagnostics are kept with their source, unless the source was blank. -/
def ofDiagnostics (diagnostics : List Diagnostic) (source : String) : Failure :=
  if reportsEmptySource diagnostics then .emptyInput else .rejected diagnostics source

def ofExportError : ExportError → Failure
  | .emptyGeometry vertices triangles => .emptyGeometry vertices triangles
  | cause => .notExported cause

def message : Failure → String
  | .file fault => "I/O error: " ++ fault.name
  | .inputNotFound path => "input file not found: " ++ path
  | .noDiagramBlock cause => "no diagram block found: " ++ cause.message
  | .emptyInput => "diagram source is empty"
  | .emptyGeometry vertices triangles =>
    "nothing to export: " ++ toString vertices ++ " vertices, " ++ toString triangles ++
      " triangles"
  | .invalidMesh fault =>
    "invalid mesh on line " ++ toString fault.line ++ ": " ++ fault.fault.message
  | .rejected diagnostics _ => summary diagnostics
  | .notExported cause => "Export error: " ++ cause.message
  | .settings fault => "Configuration error: " ++ fault.message

end Failure

end Diorama
