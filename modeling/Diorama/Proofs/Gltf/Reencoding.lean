import Diorama.Conversion.Basic
import Diorama.Proofs.Gltf.Decoding
import Diorama.Proofs.Obj.Accepted

/-!
# Reencoded meshes

An accepted mesh with something to draw can always be packed (`ofMesh_eq_ok`), and the document that it
becomes is read back as the same mesh, with its coordinates in 32 bits (`reencode_restores`).
-/

namespace Diorama

namespace Gltf

open Json (Datum)

/-! ### Packing -/

theorem IndexWidth.le_of_forCounts {vertices indices : Nat}
    (h : forCounts vertices indices = .short) : vertices ≤ 65535 := by
  rw [forCounts] at h
  split at h
  · cases h
  · next hSmall =>
    rw [not_or] at hSmall
    omega

theorem Packing.ofMesh_of_isEmpty {m : Mesh} (h : m.isEmpty = true) :
    ofMesh m = .error (.emptyGeometry m.vertices.length m.triangles.length) := if_pos h

/-- No index of an accepted mesh is too large for its width. -/
theorem Packing.ofMesh_eq_ok {m : Mesh} (hSome : m.isEmpty = false)
    (hIndices : ∀ index ∈ m.indices, index.toNat < m.vertices.length) :
    ofMesh m = .ok (ofParts (m.vertices.map Point.pack) m.indices
      (.forCounts m.vertices.length m.indexCount)) := by
  have hNone : (if IndexWidth.forCounts m.vertices.length m.indexCount = .short then
      m.indices.find? (65535 < ·) else none) = none := by
    split
    · next hShort =>
      have hVertices := IndexWidth.le_of_forCounts hShort
      refine List.find?_eq_none.mpr fun index hIndex => ?_
      have hLt := hIndices index hIndex
      rw [decide_eq_true_eq, UInt32.lt_iff_toNat_lt]
      exact Nat.not_lt.mpr (hLt.le.trans hVertices)
    · rfl
  rw [ofMesh, if_neg (by simp [hSome])]
  simp only
  rw [hNone]

theorem length_indices (m : Mesh) : m.indices.length = 3 * m.triangles.length :=
  length_flatMap_of_length (f := Triangle.toList) (fun _ => rfl) m.triangles

/-! ### What is read back -/

section

variable (points : List PackedPoint) (indices : List UInt32) (width : IndexWidth)
  (nodes : List SceneNode)

theorem points?_document {a : Accessor}
    (ha : a = ⟨⟨0, (Packing.ofParts points indices width).positionBlock⟩, 0, 5126, points.length,
      "VEC3"⟩) :
    a.points? (document (.ofParts points indices width) nodes).datum = some points := by
  rw [Accessor.points?, slice?_document_positions _ _ (by rw [ha]), ha, Option.bind_eq_bind,
    Option.bind_some, if_pos ⟨rfl, rfl⟩, List.drop_zero]
  exact points?_flatMap points _

theorem indices?_document (hFit : ∀ index ∈ indices, index.toNat < 256 ^ width.byteCount)
    {a : Accessor} (ha : a = ⟨⟨0, (Packing.ofParts points indices width).indexBlock⟩, 0,
      width.componentType, indices.length, "SCALAR"⟩) :
    a.indices? (document (.ofParts points indices width) nodes).datum =
      some (indices.map UInt32.toNat) := by
  have hBounds : ∀ n ∈ indices.map UInt32.toNat, n < 256 ^ width.byteCount :=
    List.forall_mem_map.mpr hFit
  have hNumbers := numbers?_flatMap hBounds
  rw [List.length_map, List.flatMap_map] at hNumbers
  rw [Accessor.indices?, slice?_document_indices _ _ (by rw [ha]), ha, Option.bind_eq_bind,
    Option.bind_some, if_neg (not_not_intro rfl), List.drop_zero]
  cases width with
  | short => exact hNumbers _
  | long => exact hNumbers _

end

/-! ### Restored meshes -/

/-- The box that a document states for the points of a mesh: finite corners, each coordinate of which is
that of a point, and no point outside. -/
def IsBox (mesh : Mesh) (least greatest : PackedPoint) : Prop :=
  ∀ axis, (least.along axis).isFinite = true ∧ (greatest.along axis).isFinite = true ∧
    (∃ p ∈ mesh.vertices, least.along axis = p.pack.along axis) ∧
    (∃ p ∈ mesh.vertices, greatest.along axis = p.pack.along axis) ∧
    ∀ p ∈ mesh.vertices, (least.along axis).AtMost (p.pack.along axis) ∧
      (p.pack.along axis).AtMost (greatest.along axis)

/-- A document holds a mesh: its buffer has as many bytes as it says, the first accessor gives the
vertices in 32 bits and the second one the corners of all triangles. -/
structure Holds (root : Datum) (mesh : Mesh) (bytes : List UInt8) (positions indices : Accessor) :
    Prop where
  buffer : buffer? root 0 = some bytes
  byteLength : (part? "buffers" 0 root).bind (natural? "byteLength") = some bytes.length
  positions_eq : accessor? root 0 = some positions
  indices_eq : accessor? root 1 = some indices
  points : positions.points? root = some (mesh.vertices.map Point.pack)
  corners : indices.indices? root = some (mesh.indices.map UInt32.toNat)
  counts : positions.count = mesh.vertices.length ∧ indices.count = 3 * mesh.triangles.length
  buffers : positions.view.buffer = 0 ∧ indices.view.buffer = 0
  disjoint : positions.view.block.offset + positions.view.block.length ≤ indices.view.block.offset
  inside : indices.view.block.offset + indices.view.block.length ≤ bytes.length
  lt_vertices : ∀ index ∈ mesh.indices, index.toNat < mesh.vertices.length
  ne_restart : indices.componentType = 5123 → ∀ index ∈ mesh.indices, index.toNat ≠ 65535
  box : ∃ least greatest, corner? root 0 "min" = some least.toList ∧
    corner? root 0 "max" = some greatest.toList ∧ IsBox mesh least greatest

theorem isBox_ofPoints {mesh : Mesh} (hSome : mesh.vertices ≠ [])
    (hPack : ∀ p ∈ mesh.vertices, p.IsPackable) :
    IsBox mesh (Bounds.ofPoints (mesh.vertices.map Point.pack)).least
      (Bounds.ofPoints (mesh.vertices.map Point.pack)).greatest := by
  have hFinite : ∀ q ∈ mesh.vertices.map Point.pack, ∀ axis, (q.along axis).isFinite = true := by
    intro q hq
    obtain ⟨p, hp, rfl⟩ := List.mem_map.mp hq
    exact hPack p hp
  intro axis
  obtain ⟨⟨_, hFirst, hLeast⟩, ⟨_, hLast, hGreatest⟩, hAll⟩ :=
    Bounds.ofPoints_bounds (mt List.map_eq_nil_iff.mp hSome) hFinite axis
  obtain ⟨low, hLow, rfl⟩ := List.mem_map.mp hFirst
  obtain ⟨high, hHigh, rfl⟩ := List.mem_map.mp hLast
  refine ⟨?_, ?_, ⟨low, hLow, hLeast⟩, ⟨high, hHigh, hGreatest⟩,
    fun p hp => hAll _ (List.mem_map_of_mem hp)⟩
  · rw [hLeast]
    exact hPack low hLow axis
  · rw [hGreatest]
    exact hPack high hHigh axis

/-- The indices of a mesh fit into the width that is chosen for them, short of its largest number. -/
theorem lt_of_forCounts {mesh : Mesh}
    (hIndices : ∀ index ∈ mesh.indices, index.toNat < mesh.vertices.length) {width : IndexWidth}
    (hWidth : IndexWidth.forCounts mesh.vertices.length mesh.indexCount = width) :
    ∀ index ∈ mesh.indices, index.toNat < 256 ^ width.byteCount ∧
      (width = .short → index.toNat ≠ 65535) := by
  intro index hIndex
  have hLt := hIndices index hIndex
  cases width with
  | short =>
    have hVertices := IndexWidth.le_of_forCounts hWidth
    rw [IndexWidth.byteCount]
    exact ⟨by omega, fun _ => by omega⟩
  | long => exact ⟨index.toNat_lt, nofun⟩

/-- **The document of a packed mesh holds the mesh.** -/
theorem holds_document {mesh : Mesh} (hSome : mesh.vertices ≠ [])
    (hPack : ∀ p ∈ mesh.vertices, p.IsPackable)
    (hIndices : ∀ index ∈ mesh.indices, index.toNat < mesh.vertices.length)
    (nodes : List SceneNode) : ∃ bytes positions indices,
      Holds (document (.ofParts (mesh.vertices.map Point.pack) mesh.indices
        (.forCounts mesh.vertices.length mesh.indexCount)) nodes).datum mesh bytes positions
        indices := by
  obtain ⟨width, hWidth⟩ : ∃ width,
      IndexWidth.forCounts mesh.vertices.length mesh.indexCount = width := ⟨_, rfl⟩
  have hFit := lt_of_forCounts hIndices hWidth
  rw [hWidth]
  have hBox := isBox_ofPoints hSome hPack
  have hCorners := corner?_document (.ofParts (mesh.vertices.map Point.pack) mesh.indices width)
    nodes fun axis => ⟨(hBox axis).1, (hBox axis).2.1⟩
  have hPoints := points?_document (mesh.vertices.map Point.pack) mesh.indices width nodes rfl
  have hNumbers := indices?_document (mesh.vertices.map Point.pack) mesh.indices width nodes
    (fun index hIndex => (hFit index hIndex).1) rfl
  have hLength : (Packing.ofParts (mesh.vertices.map Point.pack) mesh.indices width).bytes.length =
      (Packing.ofParts (mesh.vertices.map Point.pack) mesh.indices width).byteLength := by
    rw [Packing.bytes, List.length_append, Packing.byteLength]
  refine ⟨_, _, _, buffer?_document _ nodes, ?_, accessor?_document_zero _ nodes,
    accessor?_document_one _ nodes, hPoints, hNumbers, ⟨List.length_map _, length_indices mesh⟩,
    ⟨rfl, rfl⟩, (Nat.zero_add _).le, ?_, hIndices, ?_, _, _, hCorners.1, hCorners.2, hBox⟩
  · rw [buffer_document, Option.bind_some, natural?, Json.Value.member?_datum, hLength]
    exact Json.Value.natural?_datum _
  · exact hLength.ge
  · intro hShort index hIndex
    refine (hFit index hIndex).2 ?_
    cases width with
    | short => rfl
    | long => cases hShort

end Gltf

/-- **Reencoding preserves a mesh.** An accepted mesh without vertices or without triangles is refused;
any other one becomes a document that is read back as this mesh. -/
theorem reencode_restores {text : String} {mesh : Mesh} (hRead : Obj.read text = .ok mesh) :
    (mesh.vertices = [] ∨ mesh.triangles = [] →
      reencode text =
        .error (.emptyGeometry mesh.vertices.length mesh.triangles.length)) ∧
    (mesh.vertices ≠ [] → mesh.triangles ≠ [] → ∃ document root bytes positions indices,
      reencode text = .ok document ∧ Json.read? document = some root ∧
        Gltf.Holds root mesh bytes positions indices) := by
  obtain ⟨hPack, hIndices⟩ := Obj.read_eq_ok hRead
  have hText : reencode text = (Gltf.meshText mesh).mapError .ofExportError := by
    rw [reencode, hRead]
    rfl
  rw [hText, Gltf.meshText]
  constructor
  · intro hEmpty
    have hNone : mesh.isEmpty = true := by
      rw [Mesh.isEmpty, Bool.or_eq_true, List.isEmpty_iff, List.isEmpty_iff]
      exact hEmpty
    rw [Gltf.Packing.ofMesh_of_isEmpty hNone]
    rfl
  · intro hVertices hTriangles
    have hSome : mesh.isEmpty = false := by
      rw [Mesh.isEmpty, Bool.or_eq_false_iff, List.isEmpty_eq_false_iff, List.isEmpty_eq_false_iff]
      exact ⟨hVertices, hTriangles⟩
    obtain ⟨bytes, positions, indices, hHolds⟩ :=
      Gltf.holds_document hVertices hPack hIndices [⟨none⟩]
    rw [Gltf.Packing.ofMesh_eq_ok hSome hIndices]
    exact ⟨_, _, bytes, positions, indices, rfl, Json.Value.read?_text _, hHolds⟩

/-- Faces that name their vertices from the first and from the last one, one of them before it comes. -/
def triangleText : String := "v 0 0 0\nv 1.5 -1e-3 0\nf 1 -1 3\nv 0 1e10 0.1\n"

theorem reencode_restores_triangle : ∃ mesh document root bytes positions indices,
    Obj.read triangleText = .ok mesh ∧ mesh.vertices.length = 3 ∧ mesh.triangles = [⟨0, 1, 2⟩] ∧
      reencode triangleText = .ok document ∧ Json.read? document = some root ∧
      Gltf.Holds root mesh bytes positions indices := by
  have hMesh : (Obj.read triangleText).toOption.map (fun m => (m.vertices.length, m.triangles)) =
      some (3, [⟨0, 1, 2⟩]) := by
    decide +kernel
  cases hRead : Obj.read triangleText with
  | error fault =>
    rw [hRead] at hMesh
    cases hMesh
  | ok mesh =>
    rw [hRead] at hMesh
    obtain ⟨hVertices, hTriangles⟩ := Prod.mk.inj (Option.some.inj hMesh)
    have hSome : mesh.vertices ≠ [] := List.ne_nil_of_length_eq_add_one hVertices
    obtain ⟨document, root, bytes, positions, indices, hHolds⟩ :=
      (reencode_restores hRead).2 hSome (by rw [hTriangles]; exact List.cons_ne_nil _ _)
    exact ⟨mesh, document, root, bytes, positions, indices, rfl, hVertices, hTriangles, hHolds⟩

end Diorama
