import Diorama.Proofs.Gltf.Reencoding

/-!
# Packed meshes unpacked

When a mesh can be packed, and with which failure it is refused (`ofMesh_eq_error_iff`). The two blocks of
a packed mesh lie side by side and take up all its bytes, and what is unpacked from them by the counts
and the width of the packing are the triangles and the vertices in 32 bits (`unpack?_ofParts`). So
nothing of a mesh is lost but the bits that coordinates are cut by (`ofMesh_packs`).
-/

namespace Diorama.Gltf

/-! ### Unpacking -/

/-- The bytes in a range. -/
def Block.slice (b : Block) (bytes : List UInt8) : List UInt8 := (bytes.drop b.offset).take b.length

/-- Three indices each make up a triangle. -/
def trianglesOf (indices : List Nat) : List Triangle :=
  (triples indices).map fun t => ⟨.ofNat t.x, .ofNat t.y, .ofNat t.z⟩

namespace Packing

/-- Reads the vertices and the triangles back by what a packing tells about its bytes. -/
def unpack? (p : Packing) : Option (List PackedPoint × List Triangle) := do
  let points ← points? p.vertexCount (p.positionBlock.slice p.bytes)
  let indices ← numbers? p.width.byteCount p.indexCount (p.indexBlock.slice p.bytes)
  return (points, trianglesOf indices)

end Packing

theorem indices_eq_flatMap (m : Mesh) : m.indices.map UInt32.toNat =
    (m.triangles.map fun t => (⟨t.a.toNat, t.b.toNat, t.c.toNat⟩ : Vec3 Nat)).flatMap Vec3.toList := by
  rw [Mesh.indices, List.map_flatMap, List.flatMap_map]
  rfl

theorem trianglesOf_indices (m : Mesh) : trianglesOf (m.indices.map UInt32.toNat) = m.triangles := by
  rw [trianglesOf, indices_eq_flatMap, triples_flatMap, List.map_map]
  refine (List.map_congr_left fun t _ => ?_).trans (List.map_id m.triangles)
  simp only [Function.comp_apply, UInt32.ofNat_toNat, id_eq]

/-! ### Filling up -/

/-- What is missing to a multiple of four. -/
def fillingOf (length : Nat) : Nat := (4 - length % 4) % 4

theorem padToFour_eq (bytes : List UInt8) :
    padToFour bytes = bytes ++ List.replicate (fillingOf bytes.length) 0 := rfl

theorem fillingOf_lt (length : Nat) : fillingOf length < 4 := Nat.mod_lt _ (by decide)

theorem add_fillingOf_mod (length : Nat) : (length + fillingOf length) % 4 = 0 := by
  rw [fillingOf]
  omega

theorem length_padToFour_mod (bytes : List UInt8) : (padToFour bytes).length % 4 = 0 := by
  rw [padToFour_eq, List.length_append, List.length_replicate]
  exact add_fillingOf_mod bytes.length

theorem padToFour_of_dvd {bytes : List UInt8} (h : 4 ∣ bytes.length) : padToFour bytes = bytes := by
  have hNone : fillingOf bytes.length = 0 := by
    rw [fillingOf]
    omega
  rw [padToFour_eq, hNone, List.replicate_zero, List.append_nil]

theorem length_pointBytes (p : PackedPoint) : (pointBytes p).length = 12 := by
  have hComponent : ∀ x : Single, (littleEndian 4 x.toBits).length = 4 :=
    fun x => length_littleEndian 4 x.toBits
  rw [pointBytes, length_flatMap_of_length hComponent]
  rfl

theorem length_flatMap_pointBytes (points : List PackedPoint) :
    (points.flatMap pointBytes).length = 12 * points.length :=
  length_flatMap_of_length length_pointBytes points

/-! ### Packings of parts -/

namespace Packing

section

variable (points : List PackedPoint) (indices : List UInt32) (width : IndexWidth)

/-- Points fill their block by themselves. -/
theorem positionBytes_ofParts :
    (ofParts points indices width).positionBytes = points.flatMap pointBytes := by
  refine padToFour_of_dvd ?_
  rw [length_flatMap_pointBytes]
  omega

theorem positionBlock_ofParts :
    (ofParts points indices width).positionBlock = ⟨0, 12 * points.length⟩ := by
  rw [positionBlock, positionBytes_ofParts, length_flatMap_pointBytes]

theorem bytes_ofParts : (ofParts points indices width).bytes =
    points.flatMap pointBytes ++
      indices.flatMap (fun index => littleEndian width.byteCount index.toNat) ++
      List.replicate (fillingOf (indices.flatMap fun index =>
        littleEndian width.byteCount index.toNat).length) 0 := by
  rw [bytes, positionBytes_ofParts, List.append_assoc]
  rfl

theorem length_bytes_ofParts_mod : (ofParts points indices width).bytes.length % 4 = 0 := by
  have hPositions := length_padToFour_mod (points.flatMap pointBytes)
  have hIndices := length_padToFour_mod
    (indices.flatMap fun index => littleEndian width.byteCount index.toNat)
  rw [bytes, List.length_append]
  show ((padToFour _).length + (padToFour _).length) % 4 = 0
  omega

theorem slice_positionBlock (p : Packing) : p.positionBlock.slice p.bytes = p.positionBytes := by
  rw [Block.slice, positionBlock, bytes, List.drop_zero, List.take_left]

theorem slice_indexBlock (p : Packing) : p.indexBlock.slice p.bytes = p.indexBytes := by
  rw [Block.slice, indexBlock, bytes, List.drop_left, List.take_length]

theorem numbers?_indexBytes (hFit : ∀ index ∈ indices, index.toNat < 256 ^ width.byteCount) :
    numbers? width.byteCount indices.length (ofParts points indices width).indexBytes =
      some (indices.map UInt32.toNat) := by
  have hNumbers := numbers?_flatMap (List.forall_mem_map.mpr hFit)
    (List.replicate (fillingOf (indices.flatMap fun index =>
      littleEndian width.byteCount index.toNat).length) 0)
  rw [List.length_map, List.flatMap_map] at hNumbers
  exact hNumbers

/-- **What was packed is unpacked.** -/
theorem unpack?_ofParts (hFit : ∀ index ∈ indices, index.toNat < 256 ^ width.byteCount) :
    (ofParts points indices width).unpack? =
      some (points, trianglesOf (indices.map UInt32.toNat)) := by
  have hPoints := points?_flatMap points []
  have hIndices := numbers?_indexBytes points indices width hFit
  rw [List.append_nil] at hPoints
  rw [unpack?, slice_positionBlock, slice_indexBlock, positionBytes_ofParts]
  show (points? points.length _).bind _ = _
  rw [hPoints, Option.bind_some]
  show (numbers? width.byteCount indices.length _).bind _ = _
  rw [hIndices]
  rfl

end

/-! ### Which meshes are packed -/

/-- The first index that needs more than 16 bits. -/
def IsFirstTooLarge (indices : List UInt32) (index : UInt32) : Prop :=
  65535 < index.toNat ∧
    ∃ before after, indices = before ++ index :: after ∧ ∀ i ∈ before, i.toNat ≤ 65535

/-- Why a mesh is not packed: it has nothing to draw, or it has so few vertices and indices that they
are counted by 16 bits, but an index that is larger. -/
inductive Refuses (m : Mesh) : ExportError → Prop
  | empty (h : m.vertices = [] ∨ m.triangles = []) :
      Refuses m (.emptyGeometry m.vertices.length m.triangles.length)
  | tooLarge {index : UInt32} (hVertices : m.vertices ≠ []) (hTriangles : m.triangles ≠ [])
      (hShort : m.vertices.length ≤ 65535 ∧ 3 * m.triangles.length ≤ 65535)
      (hIndex : IsFirstTooLarge m.indices index) : Refuses m (.indexOverflow index)

/-- The mesh in a packing: how often and how wide it is, where its blocks lie, which bytes they hold,
that they are unpacked as this mesh, and its box. -/
structure Packs (p : Packing) (m : Mesh) : Prop where
  counts : p.vertexCount = m.vertices.length ∧ p.indexCount = 3 * m.triangles.length
  width : p.width = .long ↔ 65535 < m.vertices.length ∨ 65535 < 3 * m.triangles.length
  bytes : ∃ filling < 4, p.bytes = (m.vertices.map Point.pack).flatMap pointBytes ++
    m.indices.flatMap (fun index => littleEndian p.width.byteCount index.toNat) ++
    List.replicate filling 0
  byteLength : p.byteLength = p.bytes.length ∧ p.bytes.length % 4 = 0
  first : p.positionBlock.offset = 0 ∧ p.positionBlock.length = 12 * m.vertices.length
  adjacent : p.indexBlock.offset = p.positionBlock.offset + p.positionBlock.length
  last : p.indexBlock.offset + p.indexBlock.length = p.bytes.length
  aligned : p.positionBlock.offset % 4 = 0 ∧ p.indexBlock.offset % 4 = 0
  unpacked : p.unpack? = some (m.vertices.map Point.pack, m.triangles)
  box : ∀ axis, p.bounds.IsExact (m.vertices.map Point.pack) axis

theorem forCounts_eq_short_iff {vertices indices : Nat} :
    IndexWidth.forCounts vertices indices = .short ↔ vertices ≤ 65535 ∧ indices ≤ 65535 := by
  rw [IndexWidth.forCounts]
  split_ifs with h
  · simp only [false_iff]
    omega
  · simp only [true_iff]
    omega

theorem forCounts_eq_long_iff {vertices indices : Nat} :
    IndexWidth.forCounts vertices indices = .long ↔ 65535 < vertices ∨ 65535 < indices := by
  rw [IndexWidth.forCounts]
  split_ifs with h
  · simp only [true_iff]
    exact h
  · simp only [false_iff]
    exact h

theorem isEmpty_eq_false_iff {m : Mesh} :
    m.isEmpty = false ↔ m.vertices ≠ [] ∧ m.triangles ≠ [] := by
  rw [Mesh.isEmpty, Bool.or_eq_false_iff, List.isEmpty_eq_false_iff, List.isEmpty_eq_false_iff]

theorem isEmpty_eq_true_iff {m : Mesh} :
    m.isEmpty = true ↔ m.vertices = [] ∨ m.triangles = [] := by
  rw [Mesh.isEmpty, Bool.or_eq_true, List.isEmpty_iff, List.isEmpty_iff]

theorem find?_eq_some_iff_isFirstTooLarge {indices : List UInt32} {index : UInt32} :
    indices.find? (65535 < ·) = some index ↔ IsFirstTooLarge indices index := by
  have hLarge (i : UInt32) : decide (65535 < i) = true ↔ 65535 < i.toNat := by
    rw [decide_eq_true_eq, UInt32.lt_iff_toNat_lt]
    rfl
  have hSmall (i : UInt32) : (!decide (65535 < i)) = true ↔ i.toNat ≤ 65535 := by
    rw [Bool.not_eq_true', ← Bool.not_eq_true, hLarge, Nat.not_lt]
  simp only [List.find?_eq_some_iff_append, hLarge, hSmall, IsFirstTooLarge]

theorem find?_eq_none_iff_toNat_le {indices : List UInt32} :
    indices.find? (65535 < ·) = none ↔ ∀ index ∈ indices, index.toNat ≤ 65535 := by
  rw [List.find?_eq_none]
  refine forall₂_congr fun index _ => ?_
  rw [decide_eq_true_eq, UInt32.lt_iff_toNat_lt]
  exact Nat.not_lt

theorem exists_isFirstTooLarge {indices : List UInt32} {index : UInt32} (hMem : index ∈ indices)
    (hLarge : 65535 < index.toNat) : ∃ first, IsFirstTooLarge indices first := by
  cases hFind : indices.find? (65535 < ·) with
  | some first => exact ⟨first, find?_eq_some_iff_isFirstTooLarge.mp hFind⟩
  | none => exact absurd (find?_eq_none_iff_toNat_le.mp hFind index hMem) (Nat.not_le.mpr hLarge)

/-- What becomes of a mesh with something to draw. -/
theorem ofMesh_of_isEmpty_eq_false {m : Mesh} (hSome : m.isEmpty = false) :
    (∃ index, IndexWidth.forCounts m.vertices.length m.indexCount = .short ∧
        IsFirstTooLarge m.indices index ∧ ofMesh m = .error (.indexOverflow index)) ∨
      (∀ index ∈ m.indices, index.toNat <
        256 ^ (IndexWidth.forCounts m.vertices.length m.indexCount).byteCount) ∧
      ofMesh m = .ok (ofParts (m.vertices.map Point.pack) m.indices
        (.forCounts m.vertices.length m.indexCount)) := by
  rw [ofMesh, if_neg (by simp [hSome])]
  cases hWidth : IndexWidth.forCounts m.vertices.length m.indexCount with
  | short =>
    cases hFind : m.indices.find? (65535 < ·) with
    | some index =>
      refine .inl ⟨index, rfl, find?_eq_some_iff_isFirstTooLarge.mp hFind, ?_⟩
      simp only [if_true]
    | none =>
      have hSmall := find?_eq_none_iff_toNat_le.mp hFind
      refine .inr ⟨fun index hIndex => Nat.lt_succ_of_le (hSmall index hIndex), ?_⟩
      simp only [if_true]
  | long => exact .inr ⟨fun index _ => index.toNat_lt, rfl⟩

/-- **A mesh is refused exactly for these reasons.** -/
theorem ofMesh_eq_error_iff {m : Mesh} {e : ExportError} : ofMesh m = .error e ↔ Refuses m e := by
  constructor
  · intro h
    by_cases hEmpty : m.isEmpty = true
    · rw [ofMesh_of_isEmpty hEmpty] at h
      cases h
      exact .empty (isEmpty_eq_true_iff.mp hEmpty)
    · have hSome := (Bool.not_eq_true _).mp hEmpty
      obtain ⟨hVertices, hTriangles⟩ := isEmpty_eq_false_iff.mp hSome
      rcases ofMesh_of_isEmpty_eq_false hSome with ⟨index, hShort, hIndex, hMesh⟩ | ⟨-, hMesh⟩
      · rw [hMesh] at h
        cases h
        exact .tooLarge hVertices hTriangles (forCounts_eq_short_iff.mp hShort) hIndex
      · rw [hMesh] at h
        cases h
  · intro h
    cases h with
    | empty hEmpty => exact ofMesh_of_isEmpty (isEmpty_eq_true_iff.mpr hEmpty)
    | @tooLarge index hVertices hTriangles hShort hIndex =>
      have hSome := isEmpty_eq_false_iff.mpr ⟨hVertices, hTriangles⟩
      have hWidth := forCounts_eq_short_iff.mpr hShort
      have hFind := find?_eq_some_iff_isFirstTooLarge.mpr hIndex
      rw [ofMesh, if_neg (by simp [hSome])]
      simp only [Mesh.indexCount, hWidth, if_true, hFind]

theorem exists_ok_iff {m : Mesh} : (∃ p, ofMesh m = .ok p) ↔ ∀ e, ¬ Refuses m e := by
  constructor
  · rintro ⟨p, hMesh⟩ e hRefuses
    rw [ofMesh_eq_error_iff.mpr hRefuses] at hMesh
    cases hMesh
  · intro hRefuses
    cases hMesh : ofMesh m with
    | ok p => exact ⟨p, rfl⟩
    | error e => exact absurd (ofMesh_eq_error_iff.mp hMesh) (hRefuses e)

theorem forall_not_refuses_iff {m : Mesh} : (∀ e, ¬ Refuses m e) ↔
    m.vertices ≠ [] ∧ m.triangles ≠ [] ∧
      (m.vertices.length ≤ 65535 → 3 * m.triangles.length ≤ 65535 →
        ∀ index ∈ m.indices, index.toNat ≤ 65535) := by
  constructor
  · intro h
    have hVertices : m.vertices ≠ [] := fun hNil => h _ (.empty (.inl hNil))
    have hTriangles : m.triangles ≠ [] := fun hNil => h _ (.empty (.inr hNil))
    refine ⟨hVertices, hTriangles, fun hFew hShort index hIndex => ?_⟩
    by_contra hLarge
    obtain ⟨first, hFirst⟩ := exists_isFirstTooLarge hIndex (Nat.not_le.mp hLarge)
    exact h _ (.tooLarge hVertices hTriangles ⟨hFew, hShort⟩ hFirst)
  · rintro ⟨hVertices, hTriangles, hSmall⟩ e hRefuses
    cases hRefuses with
    | empty hEmpty =>
      rcases hEmpty with hNil | hNil
      · exact hVertices hNil
      · exact hTriangles hNil
    | tooLarge _ _ hShort hIndex =>
      obtain ⟨hLarge, before, after, hSplit, -⟩ := hIndex
      have hMem := hSmall hShort.1 hShort.2 _ (hSplit ▸ List.mem_append_right _ List.mem_cons_self)
      omega

/-- A mesh whose indices fit is in the packing of its parts. -/
theorem packs_ofParts {m : Mesh} (hFit : ∀ index ∈ m.indices, index.toNat <
      256 ^ (IndexWidth.forCounts m.vertices.length m.indexCount).byteCount) :
    Packs (ofParts (m.vertices.map Point.pack) m.indices
      (.forCounts m.vertices.length m.indexCount)) m := by
  have hFirst := positionBlock_ofParts (m.vertices.map Point.pack) m.indices
    (.forCounts m.vertices.length m.indexCount)
  rw [List.length_map] at hFirst
  have hSecond : (indexBlock _).offset = 12 * m.vertices.length := congrArg Block.length hFirst
  have hUnpacked := unpack?_ofParts (m.vertices.map Point.pack) m.indices _ hFit
  rw [trianglesOf_indices] at hUnpacked
  constructor
  case counts => exact ⟨List.length_map _, length_indices m⟩
  case width => exact forCounts_eq_long_iff
  case bytes => exact ⟨_, fillingOf_lt _, bytes_ofParts _ _ _⟩
  case byteLength => exact ⟨(List.length_append).symm, length_bytes_ofParts_mod _ _ _⟩
  case first => exact ⟨rfl, congrArg Block.length hFirst⟩
  case adjacent => exact (Nat.zero_add _).symm
  case last => exact (List.length_append).symm
  case aligned =>
    refine ⟨rfl, ?_⟩
    rw [hSecond]
    omega
  case unpacked => exact hUnpacked
  case box => exact Bounds.isExact_ofPoints (m.vertices.map Point.pack)

theorem eq_ofParts_of_ofMesh {m : Mesh} {p : Packing} (h : ofMesh m = .ok p) :
    (∀ index ∈ m.indices, index.toNat <
        256 ^ (IndexWidth.forCounts m.vertices.length m.indexCount).byteCount) ∧
      p = ofParts (m.vertices.map Point.pack) m.indices
        (.forCounts m.vertices.length m.indexCount) := by
  have hSome : m.isEmpty = false := by
    by_contra hEmpty
    rw [ofMesh_of_isEmpty ((Bool.not_eq_false _).mp hEmpty)] at h
    cases h
  rcases ofMesh_of_isEmpty_eq_false hSome with ⟨index, -, -, hMesh⟩ | ⟨hFit, hMesh⟩
  · rw [hMesh] at h
    cases h
  · rw [hMesh] at h
    cases h
    exact ⟨hFit, rfl⟩

theorem packs_ofMesh {m : Mesh} {p : Packing} (h : ofMesh m = .ok p) : Packs p m := by
  obtain ⟨hFit, rfl⟩ := eq_ofParts_of_ofMesh h
  exact packs_ofParts hFit

/-- **Packing a mesh loses nothing but bits of its coordinates.** It is refused if it has nothing to draw,
or by the first of its indices that is too large for 16 bits, if these are enough for its counts.
Otherwise it is packed into two blocks side by side, from which it is unpacked, with the exact box
around its narrowed vertices; and no other mesh has the same packing but for what narrowing takes from
the vertices. -/
theorem ofMesh_packs (m : Mesh) :
    (∀ e, ofMesh m = .error e ↔ Refuses m e) ∧
    ((∃ p, ofMesh m = .ok p) ↔ m.vertices ≠ [] ∧ m.triangles ≠ [] ∧
      (m.vertices.length ≤ 65535 → 3 * m.triangles.length ≤ 65535 →
        ∀ index ∈ m.indices, index.toNat ≤ 65535)) ∧
    (∀ p, ofMesh m = .ok p → Packs p m) ∧
    ∀ m' p, ofMesh m = .ok p → ofMesh m' = .ok p →
      m'.triangles = m.triangles ∧ m'.vertices.map Point.pack = m.vertices.map Point.pack := by
  refine ⟨fun e => ofMesh_eq_error_iff, exists_ok_iff.trans forall_not_refuses_iff,
    fun p => packs_ofMesh, ?_⟩
  intro m' p hMesh hMesh'
  have hBoth := (packs_ofMesh hMesh').unpacked.symm.trans (packs_ofMesh hMesh).unpacked
  obtain ⟨hVertices, hTriangles⟩ := Prod.mk.inj (Option.some.inj hBoth)
  exact ⟨hTriangles, hVertices⟩

/-- A triangle between vertices that the mesh does not have, over a vertex that is no number. -/
def strayMesh : Mesh := ⟨[⟨half, .nan, -half⟩], [⟨0, 65535, 258⟩]⟩

theorem ofMesh_packs_strayMesh : ∃ p, ofMesh strayMesh = .ok p ∧
    p.bytes = [0, 0, 0, 63, 0, 0, 192, 127, 0, 0, 0, 191, 0, 0, 255, 255, 2, 1, 0, 0] ∧
    Packs p strayMesh := by
  have hAll : strayMesh.indices.all (fun index => index.toNat ≤ 65535) = true := by decide
  have hIndices : ∀ index ∈ strayMesh.indices, index.toNat ≤ 65535 := fun index hIndex =>
    of_decide_eq_true (List.all_eq_true.mp hAll index hIndex)
  obtain ⟨-, hOk, hPacks, -⟩ := ofMesh_packs strayMesh
  obtain ⟨p, hMesh⟩ := hOk.mpr ⟨by decide, by decide, fun _ _ => hIndices⟩
  have hBytes : (ofMesh strayMesh).toOption.map bytes =
      some [0, 0, 0, 63, 0, 0, 192, 127, 0, 0, 0, 191, 0, 0, 255, 255, 2, 1, 0, 0] := by
    decide +kernel
  rw [hMesh] at hBytes
  exact ⟨p, hMesh, Option.some.inj hBytes, hPacks p hMesh⟩

end Packing

end Diorama.Gltf
