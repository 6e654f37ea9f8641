import Diorama.Obj.Reading
import Diorama.Proofs.Number.Order

/-!
# Boxes around points

Taking the smaller number again and again chooses a least one, and taking the greater one a greatest;
what is no number is passed over (`IsChoice.foldl`). It makes no difference that this starts from an
infinity, which may be among the numbers itself (`IsChoice.isExtreme_foldl`). A box does so along every
axis (`ofPoints_along`), and is therefore exact there (`isExact_ofPoints`). Around points with finite
coordinates it is bounded by coordinates of these points (`ofPoints_bounds`).
-/

namespace Diorama

/-- The coordinate along an axis. -/
def Vec3.along {α : Type} (v : Vec3 α) : Obj.Axis → α
  | .x => v.x
  | .y => v.y
  | .z => v.z

theorem Vec3.along_map {α β : Type} (f : α → β) (v : Vec3 α) (axis : Obj.Axis) :
    (v.map f).along axis = f (v.along axis) := by
  cases axis <;> rfl

theorem Vec3.along_zipWith {α β γ : Type} (f : α → β → γ) (v : Vec3 α) (w : Vec3 β)
    (axis : Obj.Axis) : (v.zipWith f w).along axis = f (v.along axis) (w.along axis) := by
  cases axis <;> rfl

theorem Vec3.along_replicate {α : Type} (a : α) (axis : Obj.Axis) :
    (Vec3.replicate a).along axis = a := by
  cases axis <;> rfl

theorem Vec3.forall_along_iff {α : Type} {P : α → Prop} (x y z : α) :
    (∀ axis, P ((⟨x, y, z⟩ : Vec3 α).along axis)) ↔ P x ∧ P y ∧ P z := by
  refine ⟨fun h => ⟨h .x, h .y, h .z⟩, fun h axis => ?_⟩
  cases axis with
  | x => exact h.1
  | y => exact h.2.1
  | z => exact h.2.2

theorem Vec3.forall_mem_toList_iff {α : Type} {P : α → Prop} (v : Vec3 α) :
    (∀ a ∈ v.toList, P a) ↔ ∀ axis, P (v.along axis) := by
  rw [Vec3.forall_along_iff v.x v.y v.z]
  simp [Vec3.toList]

namespace Binary

variable {F : Format} {x y z : Binary F}

/-! ### Order -/

/-- Both are numbers, and the first one is not greater. -/
def AtMost (x y : Binary F) : Prop := ∃ i j, x.rank? = some i ∧ y.rank? = some j ∧ i ≤ j

theorem atMost_iff (hTop : 0 < F.top) : x.AtMost y ↔ x.NotAbove y := (notAbove_iff hTop).symm

theorem AtMost.refl (hx : x ≠ .nan) : x.AtMost x := by
  obtain ⟨i, hi⟩ := exists_rank hx
  exact ⟨i, i, hi, hi, Int.le_refl i⟩

theorem AtMost.trans (hxy : x.AtMost y) (hyz : y.AtMost z) : x.AtMost z := by
  obtain ⟨i, j, hi, hj, hLe⟩ := hxy
  obtain ⟨j', k, hj', hk, hLe'⟩ := hyz
  obtain rfl : j = j' := Option.some.inj (hj.symm.trans hj')
  exact ⟨i, k, hi, hk, Int.le_trans hLe hLe'⟩

theorem less_iff {i j : Int} (hx : x.rank? = some i) (hy : y.rank? = some j) :
    x.less y = true ↔ i < j := by
  simp [less, hx, hy]

theorem NotAbove.less_eq_false (hTop : 0 < F.top) (h : x.NotAbove y) : y.less x = false := by
  obtain ⟨i, j, hi, hj, hLe⟩ := (notAbove_iff hTop).mp h
  rw [Bool.eq_false_iff, Ne, less_iff hj hi]
  omega

theorem atMost_or_atMost (hx : x ≠ .nan) (hy : y ≠ .nan) :
    (x.less y = true ∧ x.AtMost y) ∨ (x.less y = false ∧ y.AtMost x) := by
  obtain ⟨i, hi⟩ := exists_rank hx
  obtain ⟨j, hj⟩ := exists_rank hy
  have hLess := less_iff hi hj
  cases h : x.less y with
  | true => exact .inl ⟨rfl, i, j, hi, hj, Int.le_of_lt (hLess.mp h)⟩
  | false => exact .inr ⟨rfl, j, i, hj, hi, Int.not_lt.mp (mt hLess.mpr (by simp [h]))⟩

/-! ### Choices -/

/-- The operation chooses one of two numbers by an order, and passes over what is no number. -/
structure IsChoice (choose : Binary F → Binary F → Binary F)
    (le : Binary F → Binary F → Prop) : Prop where
  refl : ∀ {x}, x ≠ .nan → le x x
  trans : ∀ {x y z}, le x y → le y z → le x z
  nan_right : ∀ {x}, x ≠ .nan → choose x .nan = x
  eq_or : ∀ {x y}, x ≠ .nan → y ≠ .nan → choose x y = x ∨ choose x y = y
  le_left : ∀ {x y}, x ≠ .nan → y ≠ .nan → le (choose x y) x
  le_right : ∀ {x y}, x ≠ .nan → y ≠ .nan → le (choose x y) y

theorem least_eq (hx : x ≠ .nan) (hy : y ≠ .nan) : least x y = if y.less x then y else x := by
  cases x <;> cases y <;> first | rfl | contradiction

theorem greatest_eq (hx : x ≠ .nan) (hy : y ≠ .nan) :
    greatest x y = if x.less y then y else x := by
  cases x <;> cases y <;> first | rfl | contradiction

/-- The smaller number is one of the two, and not greater than either. -/
theorem least_spec (hx : x ≠ .nan) (hy : y ≠ .nan) :
    (least x y = x ∨ least x y = y) ∧ (least x y).AtMost x ∧ (least x y).AtMost y := by
  rw [least_eq hx hy]
  rcases atMost_or_atMost hy hx with ⟨hLess, hLe⟩ | ⟨hLess, hLe⟩
  · rw [hLess]
    exact ⟨.inr rfl, hLe, .refl hy⟩
  · rw [hLess]
    exact ⟨.inl rfl, .refl hx, hLe⟩

/-- The greater number is one of the two, and not smaller than either. -/
theorem greatest_spec (hx : x ≠ .nan) (hy : y ≠ .nan) :
    (greatest x y = x ∨ greatest x y = y) ∧ x.AtMost (greatest x y) ∧ y.AtMost (greatest x y) := by
  rw [greatest_eq hx hy]
  rcases atMost_or_atMost hx hy with ⟨hLess, hLe⟩ | ⟨hLess, hLe⟩
  · rw [hLess]
    exact ⟨.inr rfl, hLe, .refl hy⟩
  · rw [hLess]
    exact ⟨.inl rfl, .refl hx, hLe⟩

theorem least_nan (x : Binary F) : least x .nan = x := by cases x <;> rfl

theorem greatest_nan (x : Binary F) : greatest x .nan = x := by cases x <;> rfl

theorem isChoice_least (hTop : 0 < F.top) : IsChoice (least (F := F)) NotAbove where
  refl hx := (atMost_iff hTop).mp (.refl hx)
  trans hxy hyz :=
    (atMost_iff hTop).mp (((atMost_iff hTop).mpr hxy).trans ((atMost_iff hTop).mpr hyz))
  nan_right _ := least_nan _
  eq_or hx hy := (least_spec hx hy).1
  le_left hx hy := (atMost_iff hTop).mp (least_spec hx hy).2.1
  le_right hx hy := (atMost_iff hTop).mp (least_spec hx hy).2.2

theorem isChoice_greatest (hTop : 0 < F.top) :
    IsChoice (greatest (F := F)) (fun x y => y.NotAbove x) where
  refl hx := (atMost_iff hTop).mp (.refl hx)
  trans hxy hyz :=
    (atMost_iff hTop).mp (((atMost_iff hTop).mpr hyz).trans ((atMost_iff hTop).mpr hxy))
  nan_right _ := greatest_nan _
  eq_or hx hy := (greatest_spec hx hy).1
  le_left hx hy := (atMost_iff hTop).mp (greatest_spec hx hy).2.1
  le_right hx hy := (atMost_iff hTop).mp (greatest_spec hx hy).2.2

/-- One choice, also where there is nothing to choose. -/
theorem IsChoice.step {choose : Binary F → Binary F → Binary F}
    {le : Binary F → Binary F → Prop} (h : IsChoice choose le) (hx : x ≠ .nan) (y : Binary F) :
    choose x y ≠ .nan ∧ (choose x y = x ∨ choose x y = y) ∧ le (choose x y) x ∧
      (y ≠ .nan → le (choose x y) y) := by
  by_cases hy : y = .nan
  · rw [hy, h.nan_right hx]
    exact ⟨hx, .inl rfl, h.refl hx, fun hNumber => absurd rfl hNumber⟩
  · have hChosen := h.eq_or hx hy
    have hNumber : choose x y ≠ .nan := by
      rcases hChosen with hEq | hEq
      · rwa [hEq]
      · rwa [hEq]
    exact ⟨hNumber, hChosen, h.le_left hx hy, fun _ => h.le_right hx hy⟩

/-- **Choosing again and again chooses one of all numbers**, which the order puts before all of them. -/
theorem IsChoice.foldl {choose : Binary F → Binary F → Binary F}
    {le : Binary F → Binary F → Prop} (h : IsChoice choose le) {start : Binary F}
    (hStart : start ≠ .nan) (numbers : List (Binary F)) :
    numbers.foldl choose start ≠ .nan ∧
      (numbers.foldl choose start = start ∨ numbers.foldl choose start ∈ numbers) ∧
      le (numbers.foldl choose start) start ∧
      ∀ x ∈ numbers, x ≠ .nan → le (numbers.foldl choose start) x := by
  induction numbers generalizing start with
  | nil => exact ⟨hStart, .inl rfl, h.refl hStart, fun _ hx => (nomatch hx)⟩
  | cons y numbers ih =>
    rw [List.foldl_cons]
    obtain ⟨hChosenNumber, hChosen, hLeft, hRight⟩ := h.step hStart y
    obtain ⟨hNumber, hEq, hLe, hAll⟩ := ih hChosenNumber
    refine ⟨hNumber, ?_, h.trans hLe hLeft, fun x hx hx' => ?_⟩
    · rcases hEq with hEq | hMem
      · rcases hChosen with hStays | hMoves
        · exact .inl (hEq.trans hStays)
        · exact .inr (List.mem_cons.mpr (.inl (hEq.trans hMoves)))
      · exact .inr (List.mem_cons_of_mem _ hMem)
    · rcases List.mem_cons.mp hx with rfl | hx
      · exact h.trans hLe (hRight hx')
      · exact hAll x hx hx'

/-! ### Extremes -/

/-- The number is the last one in the order. -/
structure IsLast (le : Binary F → Binary F → Prop) (last : Binary F) : Prop where
  ne_nan : last ≠ .nan
  le_last : ∀ {x}, x ≠ .nan → le x last
  eq_last : ∀ {x}, le last x → x = last

theorem isLast_highest : IsLast (NotAbove (F := F)) (.infinite false) where
  ne_nan := nofun
  le_last := .highest
  eq_last h := by
    cases h with
    | highest _ => rfl

theorem isLast_lowest : IsLast (fun x y : Binary F => y.NotAbove x) (.infinite true) where
  ne_nan := nofun
  le_last := .lowest
  eq_last h := by
    cases h with
    | lowest _ => rfl

/-- The first of all numbers among some values: one of them, which the order puts before all of them.
Where there is no number, the last one of all stands for it. -/
inductive IsExtreme (le : Binary F → Binary F → Prop) (last : Binary F)
    (values : List (Binary F)) : Binary F → Prop
  | attained {x : Binary F} (hMem : x ∈ values) (hNumber : x ≠ .nan)
      (hFirst : ∀ y ∈ values, y ≠ .nan → le x y) : IsExtreme le last values x
  | vacant (hNone : ∀ y ∈ values, y = .nan) : IsExtreme le last values last

section

variable {le : Binary F → Binary F → Prop} {last : Binary F} {values values' : List (Binary F)}

/-- **Choosing from the last number on finds the first one**, also if the last number is the only one
among the values. -/
theorem IsChoice.isExtreme_foldl {choose : Binary F → Binary F → Binary F}
    (h : IsChoice choose le) (hLast : IsLast le last) (values : List (Binary F)) :
    IsExtreme le last values (values.foldl choose last) := by
  obtain ⟨hNumber, hEq, -, hFirst⟩ := h.foldl hLast.ne_nan values
  rcases hEq with hEq | hMem
  · by_cases hNone : ∀ y ∈ values, y = .nan
    · rw [hEq]
      exact .vacant hNone
    · -- Nothing is behind the last number, so that it is itself among the values.
      push Not at hNone
      obtain ⟨y, hy, hyNumber⟩ := hNone
      have hy' : y = last := hLast.eq_last (hEq ▸ hFirst y hy hyNumber)
      refine .attained ?_ hNumber hFirst
      rwa [hEq, ← hy']
  · exact .attained hMem hNumber hFirst

namespace IsExtreme

theorem ne_nan (hLast : IsLast le last) (h : IsExtreme le last values x) : x ≠ .nan := by
  cases h with
  | attained _ hNumber _ => exact hNumber
  | vacant _ => exact hLast.ne_nan

theorem mem_and_le (h : IsExtreme le last values x) (hy : y ∈ values) (hNumber : y ≠ .nan) :
    x ∈ values ∧ le x y := by
  cases h with
  | attained hMem _ hFirst => exact ⟨hMem, hFirst y hy hNumber⟩
  | vacant hNone => exact absurd (hNone y hy) hNumber

theorem eq_last (h : IsExtreme le last values x) (hNone : ∀ y ∈ values, y = .nan) : x = last := by
  cases h with
  | attained hMem hNumber _ => exact absurd (hNone x hMem) hNumber
  | vacant _ => rfl

/-- Among more values, the first number comes earlier if anything. -/
theorem le_of_subset (hLast : IsLast le last) (hSubset : values ⊆ values')
    (h : IsExtreme le last values x) (h' : IsExtreme le last values' y) : le y x := by
  cases h with
  | attained hMem hNumber _ => exact (h'.mem_and_le (hSubset hMem) hNumber).2
  | vacant _ => exact hLast.le_last (h'.ne_nan hLast)

end IsExtreme

end

theorem ne_nan_of_isFinite (hFinite : x.isFinite = true) : x ≠ .nan := by
  rintro rfl
  cases hFinite

end Binary

namespace Bounds

variable {points : List PackedPoint}

/-! ### Boxes -/

theorem ofPoints_along (points : List PackedPoint) (axis : Obj.Axis) :
    (ofPoints points).least.along axis =
        (points.map (·.along axis)).foldl Binary.least (.infinite false) ∧
      (ofPoints points).greatest.along axis =
        (points.map (·.along axis)).foldl Binary.greatest (.infinite true) := by
  have hFold (b : Bounds) :
      (points.foldl extend b).least.along axis =
          (points.map (·.along axis)).foldl Binary.least (b.least.along axis) ∧
        (points.foldl extend b).greatest.along axis =
          (points.map (·.along axis)).foldl Binary.greatest (b.greatest.along axis) := by
    induction points generalizing b with
    | nil => exact ⟨rfl, rfl⟩
    | cons p points ih =>
      rw [List.foldl_cons, List.map_cons, List.foldl_cons, List.foldl_cons, (ih _).1, (ih _).2,
        extend, Vec3.along_zipWith, Vec3.along_zipWith]
      exact ⟨rfl, rfl⟩
  have hEmpty := hFold empty
  rwa [empty, Vec3.along_replicate, Vec3.along_replicate] at hEmpty

/-- Along an axis a box is bounded by the least and by the greatest number among the coordinates of
points. Where there is no number, the bounds are the infinities the wrong way round. -/
structure IsExact (b : Bounds) (points : List PackedPoint) (axis : Obj.Axis) : Prop where
  least : Binary.IsExtreme Binary.NotAbove (.infinite false) (points.map (·.along axis))
    (b.least.along axis)
  greatest : Binary.IsExtreme (fun x y => y.NotAbove x) (.infinite true)
    (points.map (·.along axis)) (b.greatest.along axis)

theorem isExact_ofPoints (points : List PackedPoint) (axis : Obj.Axis) :
    (ofPoints points).IsExact points axis := by
  have hTop : 0 < Format.single.top := by decide
  obtain ⟨hLeast, hGreatest⟩ := ofPoints_along points axis
  constructor
  · rw [hLeast]
    exact (Binary.isChoice_least hTop).isExtreme_foldl Binary.isLast_highest _
  · rw [hGreatest]
    exact (Binary.isChoice_greatest hTop).isExtreme_foldl Binary.isLast_lowest _

/-- **The box around points with finite coordinates** is bounded on every side by a coordinate of a
point, beyond which no point lies. -/
theorem ofPoints_bounds (hNe : points ≠ [])
    (hFinite : ∀ p ∈ points, ∀ axis, (p.along axis).isFinite = true) (axis : Obj.Axis) :
    (∃ p ∈ points, (ofPoints points).least.along axis = p.along axis) ∧
      (∃ p ∈ points, (ofPoints points).greatest.along axis = p.along axis) ∧
      ∀ p ∈ points, ((ofPoints points).least.along axis).AtMost (p.along axis) ∧
        (p.along axis).AtMost ((ofPoints points).greatest.along axis) := by
  obtain ⟨hLeast, hGreatest⟩ := isExact_ofPoints points axis
  have hTop : 0 < Format.single.top := by decide
  have hNumber (p : PackedPoint) (hp : p ∈ points) : p.along axis ≠ .nan :=
    Binary.ne_nan_of_isFinite (hFinite p hp axis)
  have hMem (p : PackedPoint) (hp : p ∈ points) : p.along axis ∈ points.map (·.along axis) :=
    List.mem_map_of_mem hp
  obtain ⟨p, hp⟩ := List.exists_mem_of_ne_nil points hNe
  refine ⟨?_, ?_, fun q hq => ?_⟩
  · obtain ⟨q, hq, hEq⟩ := List.mem_map.mp (hLeast.mem_and_le (hMem p hp) (hNumber p hp)).1
    exact ⟨q, hq, hEq.symm⟩
  · obtain ⟨q, hq, hEq⟩ := List.mem_map.mp (hGreatest.mem_and_le (hMem p hp) (hNumber p hp)).1
    exact ⟨q, hq, hEq.symm⟩
  · rw [Binary.atMost_iff hTop, Binary.atMost_iff hTop]
    exact ⟨(hLeast.mem_and_le (hMem q hq) (hNumber q hq)).2,
      (hGreatest.mem_and_le (hMem q hq) (hNumber q hq)).2⟩

end Bounds

end Diorama
