import Diorama.Proofs.Export.Finiteness
import Diorama.Proofs.Obj.Statements

/-!
# Zeros without sign

A sum is a negative zero only if both of its operands are (`isNegativeZero_add`). The layout puts the
positive zero in the place of either zero, so that no coordinate of a corner is a negative zero, although
the steps from the middle of a cube to its corners may be (`exists_isNegativeZero_scale_iff`). This is why
no vertex of a written scene has a `-0` (`unsigned_zeros`).
-/

namespace Diorama

/-! ### Sums of zeros -/

/-- Rounding to nearest makes no zero of what is one unit at least. -/
theorem Format.nearest_pos (F : Format) {num den : Nat} (h : 0 < num / den) :
    0 < F.nearest num den := by
  rw [nearest]
  cases hSpare : (num / den).log2 - F.fractionBits with
  | zero =>
    rw [Nat.zero_mul, Nat.zero_add]
    have hDiv := div_le_divNearest .toEven num (den * Nat.pow 2 0)
    rw [Nat.pow_eq, Nat.pow_zero, Nat.mul_one] at hDiv ⊢
    exact Nat.lt_of_lt_of_le h hDiv
  | succ spare =>
    apply Nat.lt_of_lt_of_le _ (Nat.le_add_right _ _)
    exact Nat.mul_pos (Nat.succ_pos spare) F.binade_pos

namespace Binary

variable {F : Format}

def isNegativeZero (x : Binary F) : Bool := x.isZero && x.isNegative

theorem isNegativeZero_positiveZero (x : Binary F) : x.positiveZero.isNegativeZero = false := by
  rw [positiveZero]
  by_cases hZero : x.isZero = true
  · rw [if_pos hZero]
    rw [zero, ofMagnitude]
    split
    · rfl
    · rfl
  · rw [if_neg hZero, isNegativeZero, Bool.eq_false_iff.mpr hZero, Bool.false_and]

theorem isNegativeZero_neg (x : Binary F) :
    (-x).isNegativeZero = (x.isZero && !x.isNegative) := by
  cases x <;> rfl

/-- A number that is rounded from a unit or more is no zero. -/
theorem isZero_ofUnits (negative : Bool) {num den : Nat} (h : 0 < num / den) :
    (ofUnits negative num den : Binary F).isZero = false := by
  have hPos := F.nearest_pos h
  rw [ofUnits, ofMagnitude]
  split
  · exact decide_eq_false hPos.ne'
  · rfl

/-- The only way to an exact zero from two numbers below or at zero is from two zeros. -/
theorem eq_zero_of_signedUnits_add {j k : Nat}
    (h : signedUnits F true j + signedUnits F true k = 0) : j = 0 ∧ k = 0 := by
  simp only [signedUnits, if_true] at h
  have hj : F.units j = 0 := by omega
  have hk : F.units k = 0 := by omega
  exact ⟨Format.units_eq_zero_iff.mp hj, Format.units_eq_zero_iff.mp hk⟩

theorem signedUnits_zero (negative : Bool) : signedUnits F negative 0 = 0 := by
  rw [← Int.natAbs_eq_zero, natAbs_signedUnits, Format.units_zero]

theorem isNegativeZero_add_finite (m n : Bool) (j k : Nat) (hj : j < F.top)
    (hk : k < F.top) : (finite m j hj + finite n k hk : Binary F).isNegativeZero =
      ((finite m j hj : Binary F).isNegativeZero && (finite n k hk : Binary F).isNegativeZero) := by
  show (if signedUnits F m j + signedUnits F n k = 0 then ofMagnitude (m && n) 0
    else ofUnits (signedUnits F m j + signedUnits F n k < 0)
      (signedUnits F m j + signedUnits F n k).natAbs 1 : Binary F).isNegativeZero =
    ((decide (j = 0) && m) && (decide (k = 0) && n))
  split_ifs with hZero
  · rw [ofMagnitude_eq_finite (Nat.zero_lt_of_lt hj)]
    show (decide (0 = 0) && (m && n)) = _
    cases m with
    | false => simp
    | true =>
      cases n with
      | false => simp
      | true => simp [eq_zero_of_signedUnits_add hZero]
  · have hUnit : 0 < (signedUnits F m j + signedUnits F n k).natAbs / 1 := by
      rw [Nat.div_one]
      exact Int.natAbs_pos.mpr hZero
    rw [isNegativeZero, isZero_ofUnits _ hUnit, Bool.false_and, eq_comm, Bool.eq_false_iff]
    intro hBoth
    simp only [Bool.and_eq_true, decide_eq_true_eq] at hBoth
    apply hZero
    rw [hBoth.1.1, hBoth.2.1, signedUnits_zero, signedUnits_zero, Int.add_zero]

/-- **A sum is a negative zero exactly if both operands are.** -/
theorem isNegativeZero_add (x y : Binary F) :
    (x + y).isNegativeZero = (x.isNegativeZero && y.isNegativeZero) := by
  cases x with
  | finite m j hj =>
    cases y with
    | finite n k hk => exact isNegativeZero_add_finite m n j k hj hk
    | infinite n => exact (Bool.and_false _).symm
    | nan => exact (Bool.and_false _).symm
  | infinite m =>
    cases y with
    | finite n k hk => rfl
    | infinite n =>
      show (if m = n then infinite m else nan : Binary F).isNegativeZero = false
      split_ifs <;> rfl
    | nan => rfl
  | nan => rfl

end Binary

/-! ### Corners -/

theorem cubeCorners_along (axis : Obj.Axis) : ∀ corner ∈ cubeCorners,
    corner.along axis = -half ∨ corner.along axis = half := by
  cases axis <;> decide +kernel

theorem replicate_mem_cubeCorners :
    Vec3.replicate (-half) ∈ cubeCorners ∧ Vec3.replicate half ∈ cubeCorners := by
  decide +kernel

/-- **The steps from the middle of a cube to its corners may be negative zeros**: this is so, on any axis,
exactly if half of its edge is rounded to a zero. -/
theorem exists_isNegativeZero_scale_iff (cubeSize : Double) (axis : Obj.Axis) :
    (∃ corner ∈ cubeCorners, ((Point.scale corner cubeSize).along axis).isNegativeZero = true) ↔
      (half * cubeSize).isZero = true := by
  simp only [Point.scale, Vec3.along_map]
  constructor
  · rintro ⟨corner, hCorner, hZero⟩
    rcases cubeCorners_along axis corner hCorner with hLow | hHigh
    · rw [hLow, Binary.neg_mul, Binary.isNegativeZero_neg, Bool.and_eq_true] at hZero
      exact hZero.1
    · rw [hHigh, Binary.isNegativeZero, Bool.and_eq_true] at hZero
      exact hZero.1
  · -- One of the two corners on the diagonal goes to the negative side.
    intro hZero
    cases hSign : (half * cubeSize).isNegative with
    | true =>
      refine ⟨_, replicate_mem_cubeCorners.2, ?_⟩
      rw [Vec3.along_replicate, Binary.isNegativeZero, hZero, hSign]
      rfl
    | false =>
      refine ⟨_, replicate_mem_cubeCorners.1, ?_⟩
      rw [Vec3.along_replicate, Binary.neg_mul, Binary.isNegativeZero_neg, hZero, hSign]
      rfl

namespace Obj

theorem isNegativeZero_position {spacing : Spacing} {g : Graph} {p : PlacedNode}
    (hp : p ∈ (Layout.ofGraph spacing g).nodes) (axis : Axis) :
    (p.position.along axis).isNegativeZero = false := by
  rw [(Layout.mem_ofGraph hp).2, Layout.position, Vec3.along_map]
  exact Binary.isNegativeZero_positiveZero _

theorem isNegativeZero_cornersAt {spacing : Spacing} {g : Graph} {p : PlacedNode}
    (hp : p ∈ (Layout.ofGraph spacing g).nodes) (cubeSize : Double) :
    ∀ corner ∈ cornersAt cubeSize p.position, ∀ x ∈ corner.toList, x.isNegativeZero = false := by
  rw [forall_cornersAt_iff fun x => x.isNegativeZero = false]
  intro axis
  rw [Binary.isNegativeZero_add, Binary.isNegativeZero_add, isNegativeZero_position hp]
  exact ⟨rfl, rfl⟩

/-- Nothing but a negative zero is written as one. -/
theorem isNegativeZero_of_text {x : Double} (h : NumberStyle.plain.text x = "-0".toList) :
    x.isNegativeZero = true := by
  have hRead := ofText?_plain x
  have hZero : ∀ y ∈ (Binary.ofText? "-0".toList : Option Double), y.isNegativeZero = true := by
    decide +kernel
  rw [h] at hRead
  exact hZero x hRead

/-- **No vertex of a written scene has a negative zero**, whatever the distances, depths and cubes are, and
although the steps to the corners of a cube may be negative zeros. -/
theorem unsigned_zeros {strict : Bool} {source : String} {g : Graph}
    (hRead : Graph.ofSource strict source = .ok g) (spacing : Spacing) (cubeSize : Double) :
    (∀ p ∈ (Layout.ofGraph spacing g).nodes, ∀ axis,
      (p.position.along axis).isNegativeZero = false) ∧
    (∃ text, (Exporter.obj cubeSize).exportLayout (.ofGraph spacing g) = .ok text ∧
      vertexTokens (textLines text) =
        ((Layout.ofGraph spacing g).nodes.flatMap fun p => cornersAt cubeSize p.position).map
          (fun corner => corner.toList.map NumberStyle.plain.text) ∧
      ∀ tokens ∈ vertexTokens (textLines text), "-0".toList ∉ tokens) ∧
    ∀ axis, (∃ corner ∈ cubeCorners,
        ((Point.scale corner cubeSize).along axis).isNegativeZero = true) ↔
      (half * cubeSize).isZero = true := by
  have hTexts : ∀ p ∈ (Layout.ofGraph spacing g).nodes, HasNoLineFeed p.node :=
    fun p hp => hasNoLineFeed_of_ofSource hRead (mem_nodes_of_mem_ofGraph hp)
  have hTokens : vertexTokens (textLines (text cubeSize (.ofGraph spacing g))) =
      ((Layout.ofGraph spacing g).nodes.flatMap fun p => cornersAt cubeSize p.position).map
        fun corner => corner.toList.map NumberStyle.plain.text := by
    have hEnd : vertexTokens [[]] = [] := by decide
    rw [textLines, toList_text, Text.splitOn_flatMap_concat (lineFeed_not_mem_lines hTexts),
      vertexTokens_append, vertexTokens_lines, hEnd, List.append_nil]
  refine ⟨fun p hp => isNegativeZero_position hp, ⟨_, rfl, hTokens, ?_⟩,
    exists_isNegativeZero_scale_iff cubeSize⟩
  intro tokens hMem hZero
  rw [hTokens] at hMem
  obtain ⟨corner, hCorner, rfl⟩ := List.mem_map.mp hMem
  obtain ⟨p, hp, hCorner⟩ := List.mem_flatMap.mp hCorner
  obtain ⟨x, hx, hText⟩ := List.mem_map.mp hZero
  have hNot := isNegativeZero_cornersAt hp cubeSize corner hCorner x hx
  rw [isNegativeZero_of_text hText] at hNot
  cases hNot

/-- Distances and depths of nothing, all of them to the negative side. -/
def flat : Spacing := ⟨-0, -0, -0, -0⟩

/-- Half of the least cube is rounded to a zero, and half of its steps go to the negative side. -/
theorem unsigned_zeros_flat :
    ∃ g, Graph.ofSource false "A[Pod: a]\nB[b]" = .ok g ∧
      (Layout.ofGraph flat g).nodes.length = 2 ∧
      (∀ p ∈ (Layout.ofGraph flat g).nodes, ∀ axis,
        (p.position.along axis).isNegativeZero = false) ∧
      (∃ text, (Exporter.obj (.ofMagnitude false 1)).exportLayout (.ofGraph flat g) = .ok text ∧
        (vertexTokens (textLines text)).length = 16 ∧
        ∀ tokens ∈ vertexTokens (textLines text), "-0".toList ∉ tokens) ∧
      ∃ corner ∈ cubeCorners,
        ((Point.scale corner (.ofMagnitude false 1)).along .x).isNegativeZero = true := by
  have hScene : ((Graph.ofSource false "A[Pod: a]\nB[b]").toOption.any fun g =>
      (Layout.ofGraph flat g).nodes.length = 2) = true := by
    decide +kernel
  cases hRead : Graph.ofSource false "A[Pod: a]\nB[b]" with
  | error problems =>
    rw [hRead] at hScene
    cases hScene
  | ok g =>
    rw [hRead] at hScene
    have hLength : (Layout.ofGraph flat g).nodes.length = 2 := of_decide_eq_true hScene
    obtain ⟨hPositions, ⟨text, hText, hTokens, hNone⟩, hSteps⟩ :=
      unsigned_zeros hRead flat (.ofMagnitude false 1)
    refine ⟨g, rfl, hLength, hPositions, ⟨text, hText, ?_, hNone⟩,
      (hSteps .x).mpr (by decide +kernel)⟩
    rw [hTokens, List.length_map, length_flatMap_of_length (length_cornersAt _), hLength]

end Obj

end Diorama
