import Diorama.Geometry.Mesh
import Diorama.Layout.Basic

/-! # Scenes as OBJ text

Every node becomes a cube. Its block starts with comments that tell the node, then come the eight
corners and the six faces, and an empty line ends it.
-/

namespace Diorama.Obj

/-- The corners of a cube's faces, counted from one. -/
def cubeFaces : List (List Nat) :=
  [[1, 2, 3, 4], [5, 8, 7, 6], [1, 5, 6, 2], [2, 6, 7, 3], [3, 7, 8, 4], [5, 1, 4, 8]]

/-- The texts with a blank between any two. -/
def spaced (texts : List (List Char)) : List Char := [' '].intercalate texts

def commentLines (n : Node) : List (List Char) :=
  [("# " ++ n.id).toList] ++
    (n.kind.toList.map fun kind => ("# type:" ++ kind.keyword).toList) ++
    (if n.name = "" then [] else [("# name:" ++ n.name).toList]) ++
    (n.region.toList.map fun region => ("# subgraph:" ++ region).toList)

def vertexLine (p : Point) : List Char := spaced (['v'] :: p.toList.map NumberStyle.plain.text)

def faceLine (corners : List Nat) : List Char := spaced (['f'] :: corners.map (Nat.toDigits 10))

/-- The corners of the cube around a node. -/
def cornersAt (cubeSize : Double) (center : Point) : List Point :=
  cubeCorners.map fun corner => center.offset (corner.scale cubeSize)

/-- One node, `base` vertices standing before it. Vertices are counted without a bound: in 32 bits the
count would run over at 2^29 nodes. -/
def blockLines (cubeSize : Double) (base : Nat) (placed : PlacedNode) : List (List Char) :=
  commentLines placed.node ++ (cornersAt cubeSize placed.position).map vertexLine ++
    (cubeFaces.map fun face => faceLine (face.map (· + base))) ++ [[]]

/-- The blocks of all nodes, each counted on from the ones before it. -/
def lines (cubeSize : Double) (layout : Layout) : List (List Char) :=
  layout.nodes.zipIdx.flatMap fun (placed, index) =>
    blockLines cubeSize (cubeCorners.length * index) placed

def text (cubeSize : Double) (layout : Layout) : String :=
  String.ofList ((lines cubeSize layout).flatMap (· ++ ['\n']))

end Diorama.Obj
