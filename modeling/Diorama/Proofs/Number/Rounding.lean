import Mathlib.Algebra.Group.Nat.Defs
import Mathlib.Data.Nat.Log
import Diorama.Number.Binary

/-!
# Rounding to a format

Rounding depends on the rounded quotient alone (`nearest_mul_right`), and a magnitude is the
nearest one to its own value (`nearest_units`).
-/

namespace Diorama

/-! ### Quotients -/

theorem roundsUp_mul_right (tie : Tie) (whole rest den : Nat) {k : Nat} (hk : 0 < k) :
    tie.roundsUp whole (rest * k) (den * k) = tie.roundsUp whole rest den := by
  have hEq : 2 * (rest * k) = den * k ↔ 2 * rest = den := by
    rw [← Nat.mul_assoc]
    exact Nat.mul_left_inj hk.ne'
  have hLt : den * k < 2 * (rest * k) ↔ den < 2 * rest := by
    rw [← Nat.mul_assoc]
    exact Nat.mul_lt_mul_right hk
  simp only [Tie.roundsUp, hEq, hLt]

theorem divNearest_mul_right (tie : Tie) (num den : Nat) {k : Nat} (hk : 0 < k) :
    divNearest tie (num * k) (den * k) = divNearest tie num den := by
  rw [divNearest, divNearest, Nat.mul_div_mul_right _ _ hk, Nat.mul_mod_mul_right, roundsUp_mul_right _ _ _ _ hk]

theorem divNearest_of_dvd (tie : Tie) (whole : Nat) {den : Nat} (hDen : 0 < den) :
    divNearest tie (whole * den) den = whole := by
  rw [divNearest, Nat.mul_div_cancel _ hDen, Nat.mul_mod_left, if_neg]
  simp only [Tie.roundsUp]
  rw [if_neg (by omega)]
  simp

namespace Format

theorem nearest_mul_right (F : Format) (num den : Nat) {k : Nat} (hk : 0 < k) :
    F.nearest (num * k) (den * k) = F.nearest num den := by
  simp only [nearest]
  rw [Nat.mul_div_mul_right _ _ hk, Nat.mul_right_comm den k, divNearest_mul_right _ _ _ hk]

/-! ### Magnitudes -/

theorem binade_pos (F : Format) : 0 < F.binade := Nat.two_pow_pos _

/-- The value of a magnitude whose binade is `exponent` above the least one. -/
theorem units_of_binade_le {F : Format} {magnitude : Nat} (h : F.binade ≤ magnitude) :
    F.units magnitude =
      (F.binade + magnitude % F.binade) * 2 ^ (magnitude / F.binade - 1) :=
  if_neg (by omega)

theorem log2_units {F : Format} {magnitude : Nat} (h : F.binade ≤ magnitude) :
    (F.units magnitude).log2 = F.fractionBits + (magnitude / F.binade - 1) := by
  have hLt := Nat.mod_lt magnitude F.binade_pos
  rw [units_of_binade_le h, Nat.log2_eq_log_two]
  refine Nat.log_eq_of_pow_le_of_lt_pow ?_ ?_
  · rw [Nat.pow_add]
    exact Nat.mul_le_mul_right _ (Nat.le_add_right _ _)
  · rw [Nat.add_right_comm, Nat.pow_add]
    refine Nat.mul_lt_mul_of_pos_right ?_ (Nat.two_pow_pos _)
    rw [Nat.pow_succ, Nat.mul_two]
    exact Nat.add_lt_add_left hLt _

/-- **A magnitude is the nearest one to its value.** -/
theorem nearest_units (F : Format) (magnitude : Nat) : F.nearest (F.units magnitude) 1 = magnitude := by
  simp only [nearest, Nat.pow_eq]
  rw [Nat.div_one, Nat.one_mul]
  by_cases h : magnitude < F.binade
  · have hLog : magnitude.log2 ≤ F.fractionBits := by
      rw [Nat.log2_eq_log_two]
      exact (Nat.log_mono_right h.le).trans (Nat.log_pow (by decide) _).le
    rw [units, if_pos h, Nat.sub_eq_zero_of_le hLog, Nat.zero_mul, Nat.zero_add]
    have hExact := divNearest_of_dvd .toEven magnitude Nat.one_pos
    rwa [Nat.mul_one] at hExact
  · have hLe : F.binade ≤ magnitude := by omega
    have hDiv : 1 ≤ magnitude / F.binade := (Nat.one_le_div_iff F.binade_pos).mpr hLe
    rw [log2_units hLe, Nat.add_sub_cancel_left, units_of_binade_le hLe,
      divNearest_of_dvd _ _ (Nat.two_pow_pos _)]
    have hSplit := Nat.div_add_mod' magnitude F.binade
    have hMul : (magnitude / F.binade - 1) * F.binade + F.binade =
        magnitude / F.binade * F.binade := by
      rw [← Nat.succ_mul, Nat.succ_eq_add_one, Nat.sub_add_cancel hDiv]
    omega

end Format

end Diorama
