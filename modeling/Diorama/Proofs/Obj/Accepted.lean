import Diorama.Proofs.Geometry.Bounds
import Diorama.Proofs.Geometry.Fans
import Diorama.Proofs.Outcome

/-!
# What is true of accepted meshes

Every line keeps the coordinates within the range of packed numbers (`isPackable_readLine`), and the
faces are checked against all vertices at the end. So an accepted mesh can be packed, and its
triangles name vertices that it has (`read_eq_ok`).
-/

namespace Diorama

/-- All coordinates stay finite when they are packed. -/
def Point.IsPackable (p : Point) : Prop := ∀ axis, (p.pack.along axis).isFinite = true

namespace Obj

theorem isFinite_of_coordinate {axis : Axis} {token : Option (List Char)} {x : Double}
    (h : coordinate axis token = .ok x) : (x.convert : Single).isFinite = true := by
  cases token with
  | none => cases h
  | some token =>
    rw [coordinate] at h
    split at h
    · cases h
    · split at h
      · next hFinite =>
        cases h
        exact hFinite
      · cases h

theorem isPackable_of_vertex {tokens : List (List Char)} {point : Point}
    (h : vertex tokens = .ok point) : point.IsPackable := by
  obtain ⟨x, hx, h⟩ := bind_eq_ok_iff.mp h
  obtain ⟨y, hy, h⟩ := bind_eq_ok_iff.mp h
  obtain ⟨z, hz, h⟩ := bind_eq_ok_iff.mp h
  obtain rfl := pure_eq_ok_iff.mp h
  rintro (_ | _ | _)
  · exact isFinite_of_coordinate hx
  · exact isFinite_of_coordinate hy
  · exact isFinite_of_coordinate hz

/-- A line adds nothing, a vertex or a face. -/
theorem readLine_eq_ok {progress next : Progress} {line : List Char} {number : Nat}
    (h : readLine progress line number = .ok next) :
    next = progress ∨
      (∃ tokens point, vertex tokens = .ok point ∧
        next = { progress with vertices := progress.vertices.push point }) ∨
      ∃ face, next = { progress with faces := progress.faces.push face } := by
  rw [readLine] at h
  split at h
  · split at h
    · next point hVertex =>
      cases h
      exact .inr (.inl ⟨_, point, hVertex, rfl⟩)
    · cases h
  · split at h
    · cases h
      exact .inr (.inr ⟨_, rfl⟩)
    · cases h
  · cases h
    exact .inl rfl

theorem isPackable_readLine {progress next : Progress} {line : List Char} {number : Nat}
    (hOld : ∀ p ∈ progress.vertices.toList, p.IsPackable)
    (h : readLine progress line number = .ok next) :
    ∀ p ∈ next.vertices.toList, p.IsPackable := by
  rcases readLine_eq_ok h with rfl | ⟨tokens, point, hVertex, rfl⟩ | ⟨face, rfl⟩
  · exact hOld
  · intro p hp
    rw [Array.toList_push, List.mem_append, List.mem_singleton] at hp
    rcases hp with hp | rfl
    · exact hOld p hp
    · exact isPackable_of_vertex hVertex
  · exact hOld

/-- The corners of the triangles of a polygon are corners of the polygon. -/
theorem mem_of_mem_triangulate {polygon : List UInt32} {t : Triangle}
    (ht : t ∈ triangulate polygon) {index : UInt32} (hIndex : index ∈ t.toList) :
    index ∈ polygon := by
  obtain ⟨rest, rfl, hEdge⟩ := exists_of_mem_triangulate ht
  obtain ⟨hb, hc⟩ := List.of_mem_zip hEdge
  simp only [Triangle.toList, List.mem_cons, List.not_mem_nil, or_false] at hIndex
  rcases hIndex with rfl | rfl | rfl
  · exact List.mem_cons_self
  · exact List.mem_cons_of_mem _ hb
  · exact List.mem_cons_of_mem _ (List.mem_of_mem_tail hc)

theorem resolveFace_eq_ok_iff {count : Nat} {face : Face} {triangles : List Triangle} :
    resolveFace count face = .ok triangles ↔
      (∀ index ∈ face.indices, index.toNat < count) ∧ triangles = triangulate face.indices := by
  rw [resolveFace]
  cases hFind : face.indices.find? (count ≤ ·.toNat) with
  | none =>
    have hRange : ∀ index ∈ face.indices, index.toNat < count := by
      simpa using List.find?_eq_none.mp hFind
    simp only [Except.ok.injEq]
    exact ⟨fun h => ⟨hRange, h.symm⟩, fun h => h.2.symm⟩
  | some index =>
    constructor
    · intro h
      cases h
    · intro h
      have hOutside : count ≤ index.toNat := by simpa using List.find?_some hFind
      have hInside := h.1 index (List.mem_of_find?_eq_some hFind)
      omega

theorem lt_of_resolveFace {vertices : Nat} {face : Face} {triangles : List Triangle}
    (h : resolveFace vertices face = .ok triangles) {t : Triangle} (ht : t ∈ triangles)
    {index : UInt32} (hIndex : index ∈ t.toList) : index.toNat < vertices := by
  obtain ⟨hRange, rfl⟩ := resolveFace_eq_ok_iff.mp h
  exact hRange index (mem_of_mem_triangulate ht hIndex)

/-- **An accepted mesh can be packed, and its triangles name vertices that it has.** -/
theorem read_eq_ok {text : String} {mesh : Mesh} (h : read text = .ok mesh) :
    (∀ p ∈ mesh.vertices, p.IsPackable) ∧
      ∀ index ∈ mesh.indices, index.toNat < mesh.vertices.length := by
  obtain ⟨progress, hProgress, h⟩ := bind_eq_ok_iff.mp h
  obtain ⟨triangles, hTriangles, h⟩ := bind_eq_ok_iff.mp h
  obtain rfl := pure_eq_ok_iff.mp h
  constructor
  · refine foldlM_ok_induction (P := fun progress => ∀ p ∈ progress.vertices.toList, p.IsPackable)
      (fun progress line next hOld hNext => isPackable_readLine hOld hNext) ?_ hProgress
    exact fun p hp => nomatch hp
  · intro index hIndex
    obtain ⟨t, ht, hIndex⟩ := List.mem_flatMap.mp hIndex
    obtain ⟨faceTriangles, hFace, ht⟩ := List.mem_flatten.mp ht
    obtain ⟨face, -, hResolved⟩ := exists_of_mem_mapM hTriangles hFace
    rw [Array.length_toList]
    exact lt_of_resolveFace hResolved ht hIndex

end Obj

end Diorama
