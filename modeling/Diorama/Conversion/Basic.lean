import Diorama.Conversion.Failure
import Diorama.Document.Source
import Diorama.Export.Formats

/-! # Conversions

The way from a document to the text of an output file, without any files.
-/

namespace Diorama

/-- Reads a diagram as strictly as the settings ask. -/
def Settings.readGraph (s : Settings) (source : String) : Except Failure Graph :=
  (Graph.ofSource s.strict source).mapError fun problems =>
    .ofDiagnostics (problems.map Problem.diagnostic) source

/-- How a diagram is to be converted. -/
structure Rendering where
  settings : Settings
  generatedAt : Option Nat
  format : OutputFormat
deriving DecidableEq, Repr

namespace Rendering

def layoutText (r : Rendering) (l : Layout) : Except Failure String :=
  ((r.format.exporter r.settings r.generatedAt).exportLayout l).mapError .ofExportError

/-- Converts the text of a diagram. -/
def sourceText (r : Rendering) (source : String) : Except Failure String := do
  let graph ← r.settings.readGraph source
  r.layoutText (.ofGraph r.settings.spacing graph)

/-- Converts the diagram in a document. -/
def documentText (r : Rendering) (format : SourceFormat) (document : String) :
    Except Failure String := do
  let source ← (format.extract document).mapError .noDiagramBlock
  r.sourceText source

end Rendering

def Mesh.gltfText (m : Mesh) : Except Failure String :=
  (Exporter.gltf.exportMesh m).mapError .ofExportError

/-- Converts an OBJ mesh to a glTF document. -/
def reencode (text : String) : Except Failure String := do
  let mesh ← (Obj.read text).mapError .invalidMesh
  mesh.gltfText

end Diorama
