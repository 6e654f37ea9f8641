import Mathlib.Data.List.Rotate
import Diorama.Proofs.Geometry.Fans

/-!
# The boundary of a fan

The triangles of a fan go through every edge of the polygon once, in the polygon's own direction, and
besides that to and fro between the first corner and each inner one (`perm_steps_triangulate`). What
goes to and fro cancels (`surplus_spokes`), so that a fan has the boundary of its polygon, with the
same orientation (`triangulate_boundary`). Corners may repeat.
-/

namespace Diorama

/-- The directed edges of a triangle. -/
def Triangle.steps (t : Triangle) : List (UInt32 × UInt32) := [(t.a, t.b), (t.b, t.c), (t.c, t.a)]

/-- The directed edges of a polygon: from each corner to the next, and from the last to the first. -/
def stepsRound (polygon : List UInt32) : List (UInt32 × UInt32) := polygon.zip (polygon.rotate 1)

/-- To and fro between the first corner of a polygon and another one. -/
def spoke (first corner : UInt32) : List (UInt32 × UInt32) := [(first, corner), (corner, first)]

/-- To and fro between the first corner and each one that is not next to it. -/
def spokes : List UInt32 → List (UInt32 × UInt32)
  | first :: _ :: rest => rest.dropLast.flatMap (spoke first)
  | _ => []

/-- How many times more an edge is gone through in this direction than in the other one. -/
def surplus (steps : List (UInt32 × UInt32)) (a b : UInt32) : Int :=
  steps.count (a, b) - steps.count (b, a)

/-! ### Cancelling -/

theorem surplus_append (steps steps' : List (UInt32 × UInt32)) (a b : UInt32) :
    surplus (steps ++ steps') a b = surplus steps a b + surplus steps' a b := by
  simp only [surplus, List.count_append]
  omega

theorem surplus_spoke (first corner a b : UInt32) : surplus (spoke first corner) a b = 0 := by
  have hSwap : ∀ x y : UInt32, List.count (x, y) (spoke first corner) =
      List.count (y, x) (spoke first corner) := by
    intro x y
    simp only [spoke, List.count_cons, List.count_nil, beq_iff_eq, Prod.mk.injEq, and_comm]
    omega
  rw [surplus, hSwap a b, Int.sub_self]

theorem surplus_spokes (polygon : List UInt32) (a b : UInt32) :
    surplus (spokes polygon) a b = 0 := by
  unfold spokes
  split
  · next first second rest =>
    induction rest.dropLast with
    | nil => rfl
    | cons corner corners ih =>
      rw [List.flatMap_cons, surplus_append, surplus_spoke, ih]
      rfl
  · rfl

theorem surplus_of_perm {steps steps' : List (UInt32 × UInt32)} (h : steps.Perm steps')
    (a b : UInt32) : surplus steps a b = surplus steps' a b := by
  rw [surplus, surplus, h.count_eq, h.count_eq]

/-! ### Going through a fan -/

theorem triangulate_cons (first second third : UInt32) (rest : List UInt32) :
    triangulate (first :: second :: third :: rest) =
      ⟨first, second, third⟩ :: triangulate (first :: third :: rest) := rfl

theorem stepsRound_cons (first second : UInt32) (rest : List UInt32) :
    stepsRound (first :: second :: rest) =
      (first, second) :: (second :: rest).zip (rest ++ [first]) := by
  rw [stepsRound, List.rotate_cons_succ, List.rotate_zero]
  rfl

theorem perm_steps_triangulate_cons (first second third : UInt32) (rest : List UInt32) :
    ((triangulate (first :: second :: third :: rest)).flatMap Triangle.steps).Perm
      (stepsRound (first :: second :: third :: rest) ++
        spokes (first :: second :: third :: rest)) := by
  -- A triangle more takes back the step to its third corner, and that step is half a spoke.
  induction rest generalizing second third with
  | nil => exact List.Perm.refl _
  | cons fourth rest ih =>
    have hFan := ih third fourth
    rw [triangulate_cons, List.flatMap_cons, List.perm_iff_count]
    intro step
    have hCount := hFan.count_eq step
    simp only [stepsRound_cons, spokes, List.dropLast_cons_cons, List.flatMap_cons,
      List.count_append, List.cons_append, List.zip_cons_cons, List.count_cons] at hCount ⊢
    simp only [Triangle.steps, spoke, List.count_cons, List.count_nil]
    omega

/-- **A fan goes round its polygon once, and to and fro along its spokes.** -/
theorem perm_steps_triangulate {polygon : List UInt32} (hLength : 3 ≤ polygon.length) :
    ((triangulate polygon).flatMap Triangle.steps).Perm (stepsRound polygon ++ spokes polygon) := by
  rcases polygon with _ | ⟨first, _ | ⟨second, _ | ⟨third, rest⟩⟩⟩
  · cases hLength
  · simp at hLength
  · simp at hLength
  · exact perm_steps_triangulate_cons first second third rest

/-! ### Boundaries -/

theorem surplus_loop (corner a b : UInt32) : surplus [(corner, corner)] a b = 0 := by
  simp only [surplus, List.count_cons, List.count_nil, beq_iff_eq, Prod.mk.injEq, and_comm,
    Int.sub_self]

/-- Nothing is left of going round less than three corners. -/
theorem surplus_stepsRound_of_lt {polygon : List UInt32} (hShort : polygon.length < 3) (a b : UInt32) :
    surplus (stepsRound polygon) a b = 0 := by
  rcases polygon with _ | ⟨first, _ | ⟨second, _ | ⟨third, rest⟩⟩⟩
  · rfl
  · rw [stepsRound, List.rotate_singleton]
    exact surplus_loop first a b
  · exact surplus_spoke first second a b
  · simp only [List.length_cons] at hShort
    omega

theorem triangulate_of_lt {polygon : List UInt32} (hShort : polygon.length < 3) :
    triangulate polygon = [] := by
  apply List.eq_nil_of_length_eq_zero
  rw [length_triangulate]
  omega

theorem head?_of_mem_triangulate {polygon : List UInt32} {t : Triangle}
    (ht : t ∈ triangulate polygon) : polygon.head? = some t.a := by
  obtain ⟨rest, rfl, -⟩ := exists_of_mem_triangulate ht
  rfl

/-- **A fan has the boundary of its polygon.** The triangles are its only fan: two fewer than corners,
and each starts with the first corner. Every edge is gone through as many times more in one direction than in
the other one as round the polygon itself: the triangles go through the edges of the polygon, each as
often as the polygon does, and through their spokes in both directions. -/
theorem triangulate_boundary (polygon : List UInt32) :
    (∀ triangles, IsFan polygon triangles ↔ triangles = triangulate polygon) ∧
    (triangulate polygon).length = polygon.length - 2 ∧
    (∀ t ∈ triangulate polygon, polygon.head? = some t.a) ∧
    (∀ a b, surplus ((triangulate polygon).flatMap Triangle.steps) a b =
      surplus (stepsRound polygon) a b) ∧
    (3 ≤ polygon.length → ((triangulate polygon).flatMap Triangle.steps).Perm
      (stepsRound polygon ++ spokes polygon)) ∧
    (polygon.length < 3 → triangulate polygon = []) := by
  refine ⟨fun triangles => isFan_iff, length_triangulate polygon,
    fun t ht => head?_of_mem_triangulate ht, ?_, perm_steps_triangulate, triangulate_of_lt⟩
  intro a b
  rcases Nat.lt_or_ge polygon.length 3 with hShort | hLength
  · rw [triangulate_of_lt hShort, surplus_stepsRound_of_lt hShort]
    rfl
  · rw [surplus_of_perm (perm_steps_triangulate hLength), surplus_append, surplus_spokes,
      Int.add_zero]

/-- The corner 1 is passed twice, and the edge between 1 and 2 in either direction. -/
theorem triangulate_boundary_pinched :
    3 ≤ [0, 1, 2, 1, 3].length ∧
    ((triangulate [0, 1, 2, 1, 3]).flatMap Triangle.steps).Perm
      (stepsRound [0, 1, 2, 1, 3] ++ spokes [0, 1, 2, 1, 3]) ∧
    surplus ((triangulate [0, 1, 2, 1, 3]).flatMap Triangle.steps) 1 2 = 0 ∧
    surplus ((triangulate [0, 1, 2, 1, 3]).flatMap Triangle.steps) 1 3 = 1 ∧
    triangulate [0, 1] = [] := by
  obtain ⟨-, -, -, hSurplus, hSteps, -⟩ := triangulate_boundary [0, 1, 2, 1, 3]
  obtain ⟨-, -, -, -, -, hShort⟩ := triangulate_boundary [0, 1]
  have hThree : 3 ≤ [0, 1, 2, 1, 3].length := by decide
  refine ⟨hThree, hSteps hThree, ?_, ?_, hShort (by decide)⟩
  · rw [hSurplus]
    decide
  · rw [hSurplus]
    decide

end Diorama
