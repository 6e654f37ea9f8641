import Diorama.Geometry.Point
import Diorama.Number.Decimal

/-! # Triangle meshes -/

namespace Diorama

/-- Three places in a list of vertices, counted from zero. -/
structure Triangle where
  a : UInt32
  b : UInt32
  c : UInt32
deriving DecidableEq, Repr

def Triangle.toList (t : Triangle) : List UInt32 := [t.a, t.b, t.c]

/-- Triangles over a list of vertices. The indices are not checked against the vertices. -/
structure Mesh where
  vertices : List Point
  triangles : List Triangle
deriving DecidableEq, Repr

namespace Mesh

def indices (m : Mesh) : List UInt32 := m.triangles.flatMap Triangle.toList

def indexCount (m : Mesh) : Nat := 3 * m.triangles.length

/-- There is nothing to draw. -/
def isEmpty (m : Mesh) : Bool := m.vertices.isEmpty || m.triangles.isEmpty

end Mesh

/-- The triangles of a polygon, fanned out from its first corner. -/
def triangulate : List UInt32 → List Triangle
  | [] => []
  | first :: rest => List.zipWith (fun b c => ⟨first, b, c⟩) rest rest.tail

def half : Double := .ofDecimal false ⟨5, -1⟩

/-- The corners of the cube of edge one around the origin: round the lower face, then round the
upper one. -/
def cubeCorners : List Point :=
  [-half, half].flatMap fun z =>
    [⟨-half, -half, z⟩, ⟨half, -half, z⟩, ⟨half, half, z⟩, ⟨-half, half, z⟩]

def Mesh.unitCube : Mesh where
  vertices := cubeCorners
  triangles :=
    [⟨0, 1, 2⟩, ⟨0, 2, 3⟩, ⟨4, 7, 6⟩, ⟨4, 6, 5⟩, ⟨0, 4, 5⟩, ⟨0, 5, 1⟩,
      ⟨1, 5, 6⟩, ⟨1, 6, 2⟩, ⟨2, 6, 7⟩, ⟨2, 7, 3⟩, ⟨3, 7, 4⟩, ⟨3, 4, 0⟩]

end Diorama
