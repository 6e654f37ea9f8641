import Diorama.Gltf.Packing
import Diorama.Json.Value

/-! # Scenes as glTF documents

A document holds one packed mesh, and every node of its only scene draws that mesh.
-/

namespace Diorama.Gltf

open Json (Value)

/-- A node of the scene. Without a diagram node it stands at the origin. -/
structure SceneNode where
  placed : Option PlacedNode
deriving DecidableEq, Repr

/-- What a diagram node tells about itself. -/
def extras (n : Node) : Value :=
  .object [("id", .string n.id), ("name", .string n.name),
    ("type", .ofOption (fun kind => .string (NodeKind.keyword kind)) n.kind),
    ("subgraph", .ofOption .string n.region)]

def SceneNode.json (n : SceneNode) : Value :=
  match n.placed with
  | none => .object [("mesh", .natural 0)]
  | some p =>
    .object [("name", .string p.node.id), ("mesh", .natural 0),
      ("translation", .array (p.position.toList.map .double)), ("extras", extras p.node)]

def bufferView (block : Block) (target : Nat) : Value :=
  .object [("buffer", .natural 0), ("byteOffset", .natural block.offset),
    ("byteLength", .natural block.length), ("target", .natural target)]

def accessor (view componentType count : Nat) (shape : String) : List (String × Value) :=
  [("bufferView", .natural view), ("byteOffset", .natural 0),
    ("componentType", .natural componentType), ("count", .natural count),
    ("type", .string shape)]

def document (p : Packing) (nodes : List SceneNode) : Value :=
  .object [
    ("asset", .object [("version", .string "2.0"), ("generator", .string "stratum 0.1.0")]),
    ("scenes", .array [.object [("nodes", .array ((List.range nodes.length).map .natural))]]),
    ("nodes", .array (nodes.map SceneNode.json)),
    ("meshes", .array [.object [("primitives", .array [.object [
      ("attributes", .object [("POSITION", .natural 0)]), ("indices", .natural 1),
      ("mode", .natural 4)]])]]),
    ("buffers", .array [.object [("byteLength", .natural p.byteLength),
      ("uri", .string p.dataUri)]]),
    ("bufferViews", .array [bufferView p.positionBlock 34962, bufferView p.indexBlock 34963]),
    ("accessors", .array [
      .object (accessor 0 5126 p.vertexCount "VEC3" ++
        [("min", .array (p.bounds.least.toList.map .single)),
          ("max", .array (p.bounds.greatest.toList.map .single))]),
      .object (accessor 1 p.width.componentType p.indexCount "SCALAR")])]

/-- Every node draws the unit cube. A scene without nodes has nothing to draw. -/
def layoutText (l : Layout) : Except ExportError String := do
  if l.isEmpty then throw (.emptyGeometry 0 0)
  let packing ← Packing.ofMesh .unitCube
  return (document packing (l.nodes.map fun placed => ⟨some placed⟩)).text

def meshText (m : Mesh) : Except ExportError String := do
  let packing ← Packing.ofMesh m
  return (document packing [⟨none⟩]).text

end Diorama.Gltf
