import Diorama.Gltf.Scene
import Diorama.Layout.Record
import Diorama.Obj.Text

/-! # Output formats -/

namespace Diorama

namespace Exporter

def obj (cubeSize : Double) : Exporter := ⟨"obj", some fun l => .ok (Obj.text cubeSize l), none⟩

def gltf : Exporter := ⟨"gltf", some Gltf.layoutText, some Gltf.meshText⟩

def layout (generatedAt : Option Nat) : Exporter :=
  ⟨"layout", some fun l => .ok (l.record generatedAt).text, none⟩

end Exporter

inductive OutputFormat where
  | obj
  | gltf
  | layout
deriving DecidableEq, Repr

namespace OutputFormat

def all : List OutputFormat := [.obj, .gltf, .layout]

/-- The format that is written unless another one is asked for. -/
def standard : OutputFormat := .obj

def name : OutputFormat → String
  | .obj => "obj"
  | .gltf => "gltf"
  | .layout => "layout"

def defaultFileName : OutputFormat → String
  | .obj => "model.obj"
  | .gltf => "model.gltf"
  | .layout => "model_meta.json"

def exporter (settings : Settings) (generatedAt : Option Nat) : OutputFormat → Exporter
  | .obj => .obj settings.cubeSize
  | .gltf => .gltf
  | .layout => .layout generatedAt

end OutputFormat

end Diorama
