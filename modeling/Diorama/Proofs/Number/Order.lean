import Mathlib.Order.Monotone.Basic
import Diorama.Proofs.Number.Rounding

/-!
# The order of numbers

The values of magnitudes increase with the magnitudes (`strictMono_units`). So the rank by which
numbers are compared puts them into the order of their exact values, with the infinities at its ends
(`notAbove_iff`). Two numbers of which neither is above the other are equal, or they are both zeros
(`NotAbove.sameNumber`).
-/

namespace Diorama

namespace Format

/-! ### Magnitudes -/

theorem units_zero (F : Format) : F.units 0 = 0 := if_pos F.binade_pos

/-- The value of a magnitude by the number of its binade and its place in it. -/
theorem units_eq (F : Format) (exponent : Nat) {fraction : Nat} (hFraction : fraction < F.binade) :
    F.units ((exponent + 1) * F.binade + fraction) = (F.binade + fraction) * 2 ^ exponent := by
  have hLe : F.binade ≤ (exponent + 1) * F.binade + fraction := by
    rw [Nat.succ_mul]
    omega
  have hDiv : ((exponent + 1) * F.binade + fraction) / F.binade = exponent + 1 := by
    rw [Nat.mul_comm, Nat.mul_add_div F.binade_pos, Nat.div_eq_of_lt hFraction, Nat.add_zero]
  rw [units_of_binade_le hLe, hDiv, Nat.mul_comm (exponent + 1), Nat.mul_add_mod,
    Nat.mod_eq_of_lt hFraction, Nat.add_sub_cancel]

theorem units_lt_units_succ (F : Format) (m : Nat) : F.units m < F.units (m + 1) := by
  have hBinade := F.binade_pos
  by_cases hSmall : m < F.binade
  · have hUnits : F.units m = m := if_pos hSmall
    by_cases hNext : m + 1 < F.binade
    · rw [hUnits, units, if_pos hNext]
      omega
    · have hFirst : m + 1 = (0 + 1) * F.binade + 0 := by omega
      rw [hUnits, hFirst, F.units_eq 0 hBinade]
      omega
  · obtain ⟨exponent, hExponent⟩ := Nat.exists_eq_add_of_le'
      ((Nat.one_le_div_iff hBinade).mpr (Nat.le_of_not_lt hSmall))
    have hFraction := Nat.mod_lt m hBinade
    have hSplit := Nat.div_add_mod' m F.binade
    rw [hExponent] at hSplit
    rw [← hSplit, F.units_eq exponent hFraction, Nat.add_assoc]
    by_cases hNext : m % F.binade + 1 < F.binade
    · rw [F.units_eq exponent hNext]
      exact Nat.mul_lt_mul_of_pos_right (by omega) (Nat.two_pow_pos _)
    · -- The last magnitude of a binade: the next one is twice as far from the first.
      have hFirst : (exponent + 1) * F.binade + (m % F.binade + 1) =
          (exponent + 1 + 1) * F.binade + 0 := by
        rw [Nat.succ_mul (exponent + 1)]
        omega
      rw [hFirst, F.units_eq (exponent + 1) hBinade, Nat.pow_succ', ← Nat.mul_assoc]
      exact Nat.mul_lt_mul_of_pos_right (by omega) (Nat.two_pow_pos _)

/-- **The values of magnitudes are in the order of the magnitudes.** -/
theorem strictMono_units (F : Format) : StrictMono F.units :=
  strictMono_nat_of_lt_succ F.units_lt_units_succ

theorem units_eq_zero_iff {F : Format} {m : Nat} : F.units m = 0 ↔ m = 0 := by
  rw [← F.units_zero, F.strictMono_units.injective.eq_iff, F.units_zero]

end Format

namespace Binary

variable {F : Format} {x y : Binary F}

/-! ### Ranks -/

theorem rank?_eq_none_iff : x.rank? = none ↔ x = .nan := by
  cases x <;> simp [rank?]

theorem exists_rank (hx : x ≠ .nan) : ∃ i, x.rank? = some i :=
  Option.ne_none_iff_exists'.mp (mt rank?_eq_none_iff.mp hx)

/-- The infinities have the outermost ranks. -/
theorem rank?_bounds {i : Int} (hx : x.rank? = some i) : -(F.top : Int) ≤ i ∧ i ≤ F.top := by
  cases x with
  | finite m j hj =>
    obtain rfl := Option.some.inj hx
    cases m <;> simp <;> omega
  | infinite m =>
    obtain rfl := Option.some.inj hx
    cases m <;> simp
  | nan => cases hx

/-- Only the infinity above all numbers has its rank. -/
theorem eq_highest_of_le_rank? {i : Int} (hTop : 0 < F.top) (hx : x.rank? = some i)
    (hLe : (F.top : Int) ≤ i) : x = .infinite false := by
  cases x with
  | finite m j hj =>
    obtain rfl := Option.some.inj hx
    cases m <;> simp at hLe <;> omega
  | infinite m =>
    obtain rfl := Option.some.inj hx
    cases m with
    | false => rfl
    | true => simp at hLe; omega
  | nan => cases hx

theorem isFinite_eq_false_of_rank?_le {i : Int} (hx : x.rank? = some i)
    (hLe : i ≤ -(F.top : Int)) : x.isFinite = false := by
  cases x with
  | finite m j hj =>
    obtain rfl := Option.some.inj hx
    cases m <;> simp at hLe <;> omega
  | infinite m => rfl
  | nan => rfl

theorem signedUnits_le_iff {m n : Bool} {j k : Nat} :
    signedUnits F m j ≤ signedUnits F n k ↔
      (if m then -(j : Int) else j) ≤ if n then -(k : Int) else k := by
  have hLe : F.units j ≤ F.units k ↔ j ≤ k := F.strictMono_units.le_iff_le
  have hGe : F.units k ≤ F.units j ↔ k ≤ j := F.strictMono_units.le_iff_le
  have hj : F.units j = 0 ↔ j = 0 := Format.units_eq_zero_iff
  have hk : F.units k = 0 ↔ k = 0 := Format.units_eq_zero_iff
  cases m <;> cases n <;> simp only [signedUnits, if_true, Bool.false_eq_true, if_false] <;> omega

/-- Signed magnitudes are told apart by their values, but for the zeros. -/
theorem eq_or_eq_zero_of_signedUnits_eq {m n : Bool} {j k : Nat}
    (h : signedUnits F m j = signedUnits F n k) : (m = n ∧ j = k) ∨ (j = 0 ∧ k = 0) := by
  have hRank := Int.le_antisymm (signedUnits_le_iff.mp h.le) (signedUnits_le_iff.mp h.ge)
  cases m <;> cases n <;> simp at hRank ⊢ <;> omega

/-! ### Numbers -/

/-- The first number is not above the second one: it is not so by their exact values, or the first one
is the infinity below all numbers, or the second one is the infinity above them. -/
inductive NotAbove : Binary F → Binary F → Prop
  | values {m n : Bool} {j k : Nat} (hj : j < F.top) (hk : k < F.top)
      (hLe : signedUnits F m j ≤ signedUnits F n k) : NotAbove (.finite m j hj) (.finite n k hk)
  | lowest {y : Binary F} (hy : y ≠ .nan) : NotAbove (.infinite true) y
  | highest {x : Binary F} (hx : x ≠ .nan) : NotAbove x (.infinite false)

/-- The same number, with whatever sign if it is zero. -/
def SameNumber (x y : Binary F) : Prop := x = y ∨ x.isZero = true ∧ y.isZero = true

/-- **The rank puts numbers into the order of their values.** -/
theorem notAbove_iff (hTop : 0 < F.top) :
    x.NotAbove y ↔ ∃ i j, x.rank? = some i ∧ y.rank? = some j ∧ i ≤ j := by
  constructor
  · intro h
    cases h with
    | values hj hk hLe => exact ⟨_, _, rfl, rfl, signedUnits_le_iff.mp hLe⟩
    | lowest hy =>
      obtain ⟨j, hj⟩ := exists_rank hy
      exact ⟨_, j, rfl, hj, (rank?_bounds hj).1⟩
    | highest hx =>
      obtain ⟨i, hi⟩ := exists_rank hx
      exact ⟨i, _, hi, rfl, (rank?_bounds hi).2⟩
  · intro ⟨i, j, hi, hj, hLe⟩
    have hx : x ≠ .nan := mt rank?_eq_none_iff.mpr (by simp [hi])
    have hy : y ≠ .nan := mt rank?_eq_none_iff.mpr (by simp [hj])
    -- Only an infinity has a rank beyond that of an infinity.
    cases x with
    | finite m k hk =>
      cases y with
      | finite n l hl =>
        obtain rfl := Option.some.inj hi
        obtain rfl := Option.some.inj hj
        exact .values hk hl (signedUnits_le_iff.mpr hLe)
      | infinite n =>
        cases n with
        | false => exact .highest hx
        | true =>
          obtain rfl := Option.some.inj hj
          cases isFinite_eq_false_of_rank?_le hi hLe
      | nan => exact absurd rfl hy
    | infinite m =>
      cases m with
      | false =>
        obtain rfl := Option.some.inj hi
        rw [eq_highest_of_le_rank? hTop hj hLe]
        exact .highest hx
      | true => exact .lowest hy
    | nan => exact absurd rfl hx

/-- **Of two numbers neither is above the other only if they are equal or both zero.** -/
theorem NotAbove.sameNumber (hxy : x.NotAbove y) (hyx : y.NotAbove x) : x.SameNumber y := by
  cases hxy with
  | values hj hk hLe =>
    cases hyx with
    | values _ _ hGe =>
      rcases eq_or_eq_zero_of_signedUnits_eq (Int.le_antisymm hLe hGe) with
        ⟨rfl, rfl⟩ | ⟨hZero, hZero'⟩
      · exact .inl rfl
      · exact .inr ⟨decide_eq_true hZero, decide_eq_true hZero'⟩
  | lowest _ =>
    cases hyx with
    | lowest _ => exact .inl rfl
  | highest _ =>
    cases hyx with
    | highest _ => exact .inl rfl

end Binary

end Diorama
