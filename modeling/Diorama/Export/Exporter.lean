import Diorama.Geometry.Mesh
import Diorama.Layout.Basic

/-! # Exporters

An exporter writes layouts, meshes, both or neither.
-/

namespace Diorama

/-- What an exporter is given. -/
inductive Subject where
  | layout
  | mesh
deriving DecidableEq, Repr

def Subject.name : Subject → String
  | .layout => "layout"
  | .mesh => "mesh"

inductive ExportError where
  | emptyGeometry (vertices triangles : Nat)
  | indexOverflow (index : UInt32)
  | unsupported (exporter : String) (subject : Subject)
deriving DecidableEq, Repr

def ExportError.message : ExportError → String
  | .emptyGeometry vertices triangles =>
    "Empty geometry: " ++ toString vertices ++ " vertices, " ++ toString triangles ++ " triangles"
  | .indexOverflow index => "Index " ++ toString index.toNat ++ " does not fit index buffer"
  | .unsupported exporter subject =>
    "The " ++ exporter ++ " exporter cannot render a " ++ subject.name

structure Exporter where
  name : String
  layoutText? : Option (Layout → Except ExportError String)
  meshText? : Option (Mesh → Except ExportError String)

namespace Exporter

/-- An exporter that can write nothing. -/
def bare (name : String) : Exporter := ⟨name, none, none⟩

def exportLayout (e : Exporter) (l : Layout) : Except ExportError String :=
  match e.layoutText? with
  | some text => text l
  | none => .error (.unsupported e.name .layout)

def exportMesh (e : Exporter) (m : Mesh) : Except ExportError String :=
  match e.meshText? with
  | some text => text m
  | none => .error (.unsupported e.name .mesh)

end Exporter

end Diorama
