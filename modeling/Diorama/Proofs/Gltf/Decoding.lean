import Diorama.Gltf.Scene
import Diorama.Proofs.Geometry.Bounds
import Diorama.Proofs.Gltf.Base64
import Diorama.Proofs.Gltf.Slices
import Diorama.Proofs.Json.Reading

/-!
# Reading glTF documents

A reader of glTF documents that goes from an accessor to its view, from there to the buffer, and takes
the numbers out of the bytes. From a document that holds a packed mesh it gets the bytes of the packing
(`buffer?_document`), and by its two accessors the points and the indices that were packed
(`points?_document`, `indices?_document`).
-/

namespace Diorama.Gltf

open Json (Datum Value)

/-! ### The reader -/

/-- A whole number by its name. -/
def natural? (name : String) (d : Datum) : Option Nat := (d.member? name).bind Datum.natural?

/-- An item of a list by its name and index. -/
def part? (name : String) (index : Nat) (d : Datum) : Option Datum :=
  (d.member? name).bind (Datum.item? index)

/-- The bytes of a data URI. -/
def dataOf? (uri : String) : Option (List UInt8) :=
  (Json.word? "data:application/octet-stream;base64,".toList uri.toList).bind Base64.decode?

/-- The bytes of a buffer, which has to hold as many as it says. -/
def buffer? (root : Datum) (index : Nat) : Option (List UInt8) := do
  let buffer ← part? "buffers" index root
  let uri ← (buffer.member? "uri").bind Datum.string?
  let bytes ← dataOf? uri
  let length ← natural? "byteLength" buffer
  if bytes.length = length then return bytes else none

/-- A range of bytes of a buffer. -/
structure View where
  buffer : Nat
  block : Block
deriving DecidableEq, Repr

def view? (root : Datum) (index : Nat) : Option View := do
  let view ← part? "bufferViews" index root
  let buffer ← natural? "buffer" view
  let offset ← natural? "byteOffset" view
  let length ← natural? "byteLength" view
  return ⟨buffer, ⟨offset, length⟩⟩

/-- How the bytes of a view are to be read. -/
structure Accessor where
  view : View
  offset : Nat
  componentType : Nat
  count : Nat
  shape : String
deriving DecidableEq, Repr

def accessor? (root : Datum) (index : Nat) : Option Accessor := do
  let accessor ← part? "accessors" index root
  let view ← (natural? "bufferView" accessor).bind (view? root)
  let offset ← natural? "byteOffset" accessor
  let componentType ← natural? "componentType" accessor
  let count ← natural? "count" accessor
  let shape ← (accessor.member? "type").bind Datum.string?
  return ⟨view, offset, componentType, count, shape⟩

namespace Accessor

/-- The bytes of the view, which has to lie in its buffer. -/
def slice? (root : Datum) (a : Accessor) : Option (List UInt8) := do
  let bytes ← buffer? root a.view.buffer
  if a.view.block.offset + a.view.block.length ≤ bytes.length then
    return (bytes.drop a.view.block.offset).take a.view.block.length
  else none

/-- Points with coordinates of 32 bits. -/
def points? (root : Datum) (a : Accessor) : Option (List PackedPoint) := do
  let bytes ← a.slice? root
  if a.componentType = 5126 ∧ a.shape = "VEC3" then Gltf.points? a.count (bytes.drop a.offset)
  else none

/-- Whole numbers of 16 or 32 bits. -/
def indices? (root : Datum) (a : Accessor) : Option (List Nat) := do
  let bytes ← a.slice? root
  if a.shape ≠ "SCALAR" then none
  else if a.componentType = 5123 then numbers? 2 a.count (bytes.drop a.offset)
  else if a.componentType = 5125 then numbers? 4 a.count (bytes.drop a.offset)
  else none

end Accessor

/-- A corner of the box that an accessor states. -/
def corner? (root : Datum) (index : Nat) (name : String) : Option (List Single) := do
  let accessor ← part? "accessors" index root
  let items ← (accessor.member? name).bind Datum.items?
  items.mapM Datum.binary?

/-! ### Documents with a packed mesh -/

section

variable (p : Packing) (nodes : List SceneNode)

theorem buffer_document : part? "buffers" 0 (document p nodes).datum =
    some (Value.object [("byteLength", .natural p.byteLength), ("uri", .string p.dataUri)]).datum := by
  simp [part?, document, Value.member?_datum, Value.item?_datum, List.lookup_cons]

theorem view_document (index : Nat) : part? "bufferViews" index (document p nodes).datum =
    [bufferView p.positionBlock 34962, bufferView p.indexBlock 34963][index]?.map Value.datum := by
  simp [part?, document, Value.member?_datum, Value.item?_datum, List.lookup_cons]

theorem accessor_document (index : Nat) : part? "accessors" index (document p nodes).datum =
    [Value.object (accessor 0 5126 p.vertexCount "VEC3" ++
        [("min", .array (p.bounds.least.toList.map .single)),
          ("max", .array (p.bounds.greatest.toList.map .single))]),
      .object (accessor 1 p.width.componentType p.indexCount "SCALAR")][index]?.map Value.datum := by
  simp [part?, document, Value.member?_datum, Value.item?_datum, List.lookup_cons]

theorem view?_document_zero :
    view? (document p nodes).datum 0 = some ⟨0, p.positionBlock⟩ := by
  simp [view?, view_document, bufferView, natural?, Value.member?_datum, Value.natural?_datum,
    List.lookup_cons]

theorem view?_document_one :
    view? (document p nodes).datum 1 = some ⟨0, p.indexBlock⟩ := by
  simp [view?, view_document, bufferView, natural?, Value.member?_datum, Value.natural?_datum,
    List.lookup_cons]

theorem accessor?_document_zero : accessor? (document p nodes).datum 0 =
    some ⟨⟨0, p.positionBlock⟩, 0, 5126, p.vertexCount, "VEC3"⟩ := by
  simp [accessor?, accessor_document, accessor, natural?, Value.member?_datum,
    Value.natural?_datum, List.lookup_cons, view?_document_zero, Value.string?_datum]

theorem accessor?_document_one : accessor? (document p nodes).datum 1 =
    some ⟨⟨0, p.indexBlock⟩, 0, p.width.componentType, p.indexCount, "SCALAR"⟩ := by
  simp [accessor?, accessor_document, accessor, natural?, Value.member?_datum,
    Value.natural?_datum, List.lookup_cons, view?_document_one, Value.string?_datum]

/-- **The buffer of a document holds the bytes of the packing.** -/
theorem buffer?_document : buffer? (document p nodes).datum 0 = some p.bytes := by
  have hData : dataOf? p.dataUri = some p.bytes := by
    have hUri : p.dataUri.toList =
        "data:application/octet-stream;base64,".toList ++ Base64.encode p.bytes :=
      String.toList_ofList
    rw [dataOf?, hUri, Json.word?_append]
    exact Base64.decode?_encode p.bytes
  have hLength : p.bytes.length = p.byteLength := by
    rw [Packing.bytes, List.length_append, Packing.byteLength]
  simp [buffer?, buffer_document, natural?, Value.member?_datum, Value.natural?_datum,
    List.lookup_cons, Value.string?_datum, hData, hLength]

theorem slice?_document_positions {a : Accessor} (h : a.view = ⟨0, p.positionBlock⟩) :
    a.slice? (document p nodes).datum = some p.positionBytes := by
  have hInside : p.positionBlock.offset + p.positionBlock.length ≤ p.bytes.length := by
    rw [Packing.positionBlock, Packing.bytes, List.length_append, Nat.zero_add]
    exact Nat.le_add_right _ _
  rw [Accessor.slice?, h, buffer?_document, Option.bind_eq_bind, Option.bind_some, if_pos hInside,
    Packing.positionBlock, Packing.bytes, List.drop_zero, List.take_left]
  rfl

theorem slice?_document_indices {a : Accessor} (h : a.view = ⟨0, p.indexBlock⟩) :
    a.slice? (document p nodes).datum = some p.indexBytes := by
  have hInside : p.indexBlock.offset + p.indexBlock.length ≤ p.bytes.length := by
    rw [Packing.indexBlock, Packing.bytes, List.length_append]
  rw [Accessor.slice?, h, buffer?_document, Option.bind_eq_bind, Option.bind_some, if_pos hInside,
    Packing.indexBlock, Packing.bytes, List.drop_left, List.take_length]
  rfl

/-- A corner of the box is found again if its coordinates are finite. -/
theorem corner?_document (hFinite : ∀ axis, (p.bounds.least.along axis).isFinite = true ∧
      (p.bounds.greatest.along axis).isFinite = true) :
    corner? (document p nodes).datum 0 "min" = some p.bounds.least.toList ∧
      corner? (document p nodes).datum 0 "max" = some p.bounds.greatest.toList := by
  have hCorner (v : PackedPoint) (h : ∀ axis, (v.along axis).isFinite = true) :
      ((v.toList.map Value.single).map Value.datum).mapM
        (fun d => (d.binary? : Option Single)) = some v.toList := by
    have hx := Value.binary?_datum_single (h .x)
    have hy := Value.binary?_datum_single (h .y)
    have hz := Value.binary?_datum_single (h .z)
    simp only [Vec3.along] at hx hy hz
    simp [Vec3.toList, hx, hy, hz]
  have hLeast := hCorner p.bounds.least fun axis => (hFinite axis).1
  have hGreatest := hCorner p.bounds.greatest fun axis => (hFinite axis).2
  constructor
  · simpa [corner?, accessor_document, accessor, Value.member?_datum, List.lookup_cons,
      Value.items?_datum] using hLeast
  · simpa [corner?, accessor_document, accessor, Value.member?_datum, List.lookup_cons,
      Value.items?_datum] using hGreatest

end

end Diorama.Gltf
