import Diorama.Export.Exporter
import Diorama.Gltf.Base64

/-! # Packed geometry

The positions and indices of a mesh as one block of bytes, least significant bytes first. Both parts
are filled up with zeros to a multiple of four bytes.
-/

namespace Diorama.Gltf

/-- How many bytes an index takes. -/
inductive IndexWidth where
  | short
  | long
deriving DecidableEq, Repr

namespace IndexWidth

/-- The narrowest width for a mesh with so many vertices and indices. -/
def forCounts (vertices indices : Nat) : IndexWidth :=
  if vertices > 65535 ∨ indices > 65535 then .long else .short

def byteCount : IndexWidth → Nat
  | .short => 2
  | .long => 4

/-- The number by which a document names the type of its components. -/
def componentType : IndexWidth → Nat
  | .short => 5123
  | .long => 5125

end IndexWidth

/-- The lowest `width` bytes of a number. -/
def littleEndian (width n : Nat) : List UInt8 :=
  (List.range width).map fun place => .ofNat (n >>> (8 * place))

def padToFour (bytes : List UInt8) : List UInt8 :=
  bytes ++ List.replicate ((4 - bytes.length % 4) % 4) 0

/-- A range of bytes. -/
structure Block where
  offset : Nat
  length : Nat
deriving DecidableEq, Repr

/-- A packed mesh: the bytes of both parts, and what is needed to read them. -/
structure Packing where
  positionBytes : List UInt8
  indexBytes : List UInt8
  vertexCount : Nat
  indexCount : Nat
  width : IndexWidth
  bounds : Bounds
deriving DecidableEq, Repr

def pointBytes (p : PackedPoint) : List UInt8 :=
  p.toList.flatMap fun component => littleEndian 4 component.toBits

namespace Packing

def bytes (p : Packing) : List UInt8 := p.positionBytes ++ p.indexBytes

def positionBlock (p : Packing) : Block := ⟨0, p.positionBytes.length⟩

def indexBlock (p : Packing) : Block := ⟨p.positionBytes.length, p.indexBytes.length⟩

def byteLength (p : Packing) : Nat := p.positionBytes.length + p.indexBytes.length

def dataUri (p : Packing) : String :=
  String.ofList ("data:application/octet-stream;base64,".toList ++ Base64.encode p.bytes)

def ofParts (points : List PackedPoint) (indices : List UInt32) (width : IndexWidth) : Packing where
  positionBytes := padToFour (points.flatMap pointBytes)
  indexBytes := padToFour (indices.flatMap fun index => littleEndian width.byteCount index.toNat)
  vertexCount := points.length
  indexCount := indices.length
  width := width
  bounds := .ofPoints points

/-- Packs a mesh that has something to draw. Short indices have to fit into 16 bits. -/
def ofMesh (m : Mesh) : Except ExportError Packing :=
  if m.isEmpty then .error (.emptyGeometry m.vertices.length m.triangles.length)
  else
    let width := IndexWidth.forCounts m.vertices.length m.indexCount
    match if width = .short then m.indices.find? (65535 < ·) else none with
    | some index => .error (.indexOverflow index)
    | none => .ok (ofParts (m.vertices.map Point.pack) m.indices width)

end Packing

end Diorama.Gltf
