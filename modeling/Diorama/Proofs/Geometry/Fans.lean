import Mathlib.Data.List.Basic
import Diorama.Geometry.Mesh

/-!
# Fans

`IsFan polygon triangles` tells the triangles of a fan one by one, each by its place. A polygon has
one fan, and `triangulate` gives it (`isFan_iff`).
-/

namespace Diorama

/-- Every triangle joins the first corner with an edge that does not touch it, in the order of the
edges. -/
structure IsFan (polygon : List UInt32) (triangles : List Triangle) : Prop where
  length : triangles.length = polygon.length - 2
  triangle : ∀ (k : Nat) (a b c : UInt32), polygon[0]? = some a → polygon[k + 1]? = some b →
    polygon[k + 2]? = some c → triangles[k]? = some ⟨a, b, c⟩

theorem length_triangulate (polygon : List UInt32) :
    (triangulate polygon).length = polygon.length - 2 := by
  cases polygon with
  | nil => rfl
  | cons first rest =>
    rw [triangulate, List.length_zipWith, List.length_tail, List.length_cons]
    omega

/-- A triangle of a fan joins the first corner with an edge between the other ones. -/
theorem exists_of_mem_triangulate {polygon : List UInt32} {t : Triangle}
    (ht : t ∈ triangulate polygon) :
    ∃ rest, polygon = t.a :: rest ∧ (t.b, t.c) ∈ rest.zip rest.tail := by
  cases polygon with
  | nil => cases ht
  | cons first rest =>
    rw [triangulate, ← List.map_uncurry_zip_eq_zipWith] at ht
    obtain ⟨⟨b, c⟩, hEdge, rfl⟩ := List.mem_map.mp ht
    exact ⟨rest, rfl, hEdge⟩

theorem isFan_triangulate (polygon : List UInt32) : IsFan polygon (triangulate polygon) := by
  refine ⟨length_triangulate polygon, fun k a b c ha hb hc => ?_⟩
  cases polygon with
  | nil => cases ha
  | cons first rest =>
    rw [List.getElem?_cons_zero, Option.some.injEq] at ha
    rw [List.getElem?_cons_succ] at hb hc
    rw [triangulate, List.getElem?_zipWith, hb, List.getElem?_tail, hc, ha]

theorem IsFan.unique {polygon : List UInt32} {triangles triangles' : List Triangle}
    (h : IsFan polygon triangles) (h' : IsFan polygon triangles') : triangles = triangles' := by
  refine List.ext_getElem? fun k => ?_
  by_cases hk : k < polygon.length - 2
  · have hCorner : ∀ i, i < polygon.length → ∃ corner, polygon[i]? = some corner :=
      fun i hi => ⟨polygon[i], List.getElem?_eq_getElem hi⟩
    obtain ⟨a, ha⟩ := hCorner 0 (by omega)
    obtain ⟨b, hb⟩ := hCorner (k + 1) (by omega)
    obtain ⟨c, hc⟩ := hCorner (k + 2) (by omega)
    rw [h.triangle k a b c ha hb hc, h'.triangle k a b c ha hb hc]
  · rw [List.getElem?_eq_none (by rw [h.length]; omega),
      List.getElem?_eq_none (by rw [h'.length]; omega)]

theorem isFan_iff {polygon : List UInt32} {triangles : List Triangle} :
    IsFan polygon triangles ↔ triangles = triangulate polygon := by
  constructor
  · intro h
    exact h.unique (isFan_triangulate polygon)
  · rintro rfl
    exact isFan_triangulate polygon

end Diorama
