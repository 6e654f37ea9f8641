import Diorama.Proofs.Geometry.Bounds

/-!
# What a box tells about its points

The bounds of an exact box are first numbers in an order, so that more points can only widen it
(`within_of_isExact`). Hence it depends on the set of its points alone, whatever their order is and
however often they come, but for the sign of a bound that is zero (`agree_of_isExact`). A box shows no
extent exactly if no first coordinate is a number (`isEmpty_ofPoints_iff`).
-/

namespace Diorama.Bounds

variable {points points' : List PackedPoint} {b b' : Bounds}

/-! ### Boxes within boxes -/

/-- The second box reaches as far as the first one on every side. -/
def Within (b b' : Bounds) : Prop :=
  ∀ axis, (b'.least.along axis).NotAbove (b.least.along axis) ∧
    (b.greatest.along axis).NotAbove (b'.greatest.along axis)

/-- The same box, but for the signs of bounds that are zero. -/
def Agree (b b' : Bounds) : Prop :=
  ∀ axis, (b.least.along axis).SameNumber (b'.least.along axis) ∧
    (b.greatest.along axis).SameNumber (b'.greatest.along axis)

theorem Within.agree (h : b.Within b') (h' : b'.Within b) : b.Agree b' :=
  fun axis => ⟨(h' axis).1.sameNumber (h axis).1, (h axis).2.sameNumber (h' axis).2⟩

/-- **Of exact boxes, that around more points is not smaller.** -/
theorem within_of_isExact (h : ∀ axis, b.IsExact points axis) (h' : ∀ axis, b'.IsExact points' axis)
    (hSubset : points ⊆ points') : b.Within b' := by
  intro axis
  have hValues : points.map (·.along axis) ⊆ points'.map (·.along axis) :=
    List.map_subset _ hSubset
  have hLeast := (h axis).least.le_of_subset Binary.isLast_highest hValues (h' axis).least
  have hGreatest := (h axis).greatest.le_of_subset Binary.isLast_lowest hValues (h' axis).greatest
  exact ⟨hLeast, hGreatest⟩

/-- **The set of the points determines the exact box**, so that it makes no difference in which order
they are taken, how often, and which of two zeros is kept. -/
theorem agree_of_isExact (h : ∀ axis, b.IsExact points axis) (h' : ∀ axis, b'.IsExact points' axis)
    (hSame : ∀ p, p ∈ points ↔ p ∈ points') : b.Agree b' :=
  (within_of_isExact h h' fun p hp => (hSame p).mp hp).agree
    (within_of_isExact h' h fun p hp => (hSame p).mpr hp)

theorem ofPoints_concat (points : List PackedPoint) (p : PackedPoint) :
    ofPoints (points ++ [p]) = (ofPoints points).extend p := by
  rw [ofPoints, ofPoints, List.foldl_append, List.foldl_cons, List.foldl_nil]

theorem within_extend (points : List PackedPoint) (p : PackedPoint) :
    (ofPoints points).Within ((ofPoints points).extend p) := by
  rw [← ofPoints_concat]
  exact within_of_isExact (isExact_ofPoints points) (isExact_ofPoints _)
    (List.subset_append_left points [p])

/-! ### Boxes without extent -/

/-- The bounds are the right way round where there is a number between them. -/
theorem less_eq_false_of_number (axis : Obj.Axis) {p : PackedPoint} (hp : p ∈ points)
    (hNumber : p.along axis ≠ .nan) :
    ((ofPoints points).greatest.along axis).less ((ofPoints points).least.along axis) = false := by
  obtain ⟨hLeast, hGreatest⟩ := isExact_ofPoints points axis
  have hMem : p.along axis ∈ points.map (·.along axis) := List.mem_map_of_mem hp
  have hBelow := (hLeast.mem_and_le hMem hNumber).2
  have hAbove := (hGreatest.mem_and_le hMem hNumber).2
  have hTop : 0 < Format.single.top := by decide
  exact ((Binary.isChoice_least hTop).trans hBelow hAbove).less_eq_false hTop

/-- The bounds are the infinities the wrong way round where there is no number. -/
theorem along_of_forall_eq_nan (axis : Obj.Axis) (hNone : ∀ p ∈ points, p.along axis = .nan) :
    (ofPoints points).least.along axis = .infinite false ∧
      (ofPoints points).greatest.along axis = .infinite true := by
  obtain ⟨hLeast, hGreatest⟩ := isExact_ofPoints points axis
  have hValues : ∀ y ∈ points.map (·.along axis), y = .nan := by
    intro y hy
    obtain ⟨p, hp, rfl⟩ := List.mem_map.mp hy
    exact hNone p hp
  exact ⟨hLeast.eq_last hValues, hGreatest.eq_last hValues⟩

/-- **A box shows no extent exactly if no first coordinate is a number.** -/
theorem isEmpty_ofPoints_iff : (ofPoints points).isEmpty = true ↔ ∀ p ∈ points, p.x = .nan := by
  constructor
  · intro hEmpty p hp
    by_contra hNumber
    have hSome := less_eq_false_of_number .x hp hNumber
    exact Bool.false_ne_true (hSome.symm.trans hEmpty)
  · intro hNone
    obtain ⟨hLeast, hGreatest⟩ := along_of_forall_eq_nan .x hNone
    change (ofPoints points).least.x = _ at hLeast
    change (ofPoints points).greatest.x = _ at hGreatest
    rw [isEmpty, hLeast, hGreatest]
    rfl

theorem isEmpty_ofPoints_iff_eq_nil (hNumbers : ∀ p ∈ points, p.x ≠ .nan) :
    (ofPoints points).isEmpty = true ↔ points = [] := by
  rw [isEmpty_ofPoints_iff, List.eq_nil_iff_forall_not_mem]
  exact ⟨fun hNone p hp => hNumbers p hp (hNone p hp), fun hNil p hp => absurd hp (hNil p)⟩

/-! ### Boxes around points -/

/-- **A box is exact around any points, on every axis.** It depends on the set of the points alone, but
for the sign of a bound that is zero, and a further point does not make it smaller. It shows no extent
exactly if no first coordinate is a number; if all of them are numbers, infinities included, then exactly
if there is no point. -/
theorem ofPoints_exact (points : List PackedPoint) :
    (∀ axis, (ofPoints points).IsExact points axis) ∧
    (∀ points', (∀ p, p ∈ points' ↔ p ∈ points) → (ofPoints points').Agree (ofPoints points)) ∧
    (∀ p, (ofPoints points).Within ((ofPoints points).extend p)) ∧
    ((ofPoints points).isEmpty = true ↔ ∀ p ∈ points, p.x = .nan) ∧
    ((∀ p ∈ points, p.x ≠ .nan) → ((ofPoints points).isEmpty = true ↔ points = [])) :=
  ⟨isExact_ofPoints points,
    fun points' h => agree_of_isExact (isExact_ofPoints points') (isExact_ofPoints points) h,
    within_extend points, isEmpty_ofPoints_iff, isEmpty_ofPoints_iff_eq_nil⟩

/-- Points at the infinity from which least numbers are searched for; no second coordinate is a number,
and the third ones are both zeros. -/
def farPoints : List PackedPoint :=
  [⟨.infinite false, .nan, .zero⟩, ⟨.infinite false, .nan, -.zero⟩]

theorem ofPoints_exact_farPoints :
    (∀ p ∈ farPoints, p.x ≠ .nan) ∧
    (∀ p, p ∈ farPoints.reverse ++ farPoints ↔ p ∈ farPoints) ∧
    (ofPoints (farPoints.reverse ++ farPoints)).Agree (ofPoints farPoints) ∧
    (ofPoints farPoints).isEmpty = false ∧
    (ofPoints farPoints).least.y = .infinite false ∧
    (ofPoints farPoints).greatest.y = .infinite true := by
  have hNumbers : ∀ p ∈ farPoints, p.x ≠ .nan := by decide
  have hSame : ∀ p, p ∈ farPoints.reverse ++ farPoints ↔ p ∈ farPoints := by
    simp
  have hNone : ∀ y ∈ farPoints.map (·.along .y), y = .nan := by decide
  obtain ⟨hExact, hAgree, -, -, hEmpty⟩ := ofPoints_exact farPoints
  refine ⟨hNumbers, hSame, hAgree _ hSame, ?_, (hExact .y).least.eq_last hNone,
    (hExact .y).greatest.eq_last hNone⟩
  rw [Bool.eq_false_iff]
  intro h
  exact List.cons_ne_nil _ _ ((hEmpty hNumbers).mp h)

end Diorama.Bounds
