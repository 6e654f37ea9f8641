import Mathlib.Tactic.Ring
import Diorama.Proofs.Number.Rounding

/-!
# Overflow

A quotient is rounded to a finite number exactly if it lies below the middle between the greatest finite
number and the power of two behind it (`nearest_lt_top_iff`). By this `limit` it is decided on whole
numbers whether products and sums are finite (`isFinite_mul_iff`, `isFinite_add_iff`).
-/

namespace Diorama

/-! ### Rounded quotients -/

theorem div_le_divNearest (tie : Tie) (num den : Nat) : num / den ≤ divNearest tie num den := by
  rw [divNearest]
  split_ifs
  · exact Nat.le_succ _
  · exact le_rfl

theorem divNearest_le (tie : Tie) (num den : Nat) : divNearest tie num den ≤ num / den + 1 := by
  rw [divNearest]
  split_ifs
  · exact le_rfl
  · exact Nat.le_succ _

/-- The middle above an odd number is rounded up, away from it. -/
theorem divNearest_le_iff_of_odd {whole num den : Nat} (hOdd : whole % 2 = 1) (hDen : 0 < den) :
    divNearest .toEven num den ≤ whole ↔ 2 * num < (2 * whole + 1) * den := by
  have hSplit := Nat.div_add_mod' num den
  have hRest := Nat.mod_lt num hDen
  have hMiddle : (2 * whole + 1) * den = 2 * (whole * den) + den := by
    rw [Nat.add_mul, Nat.one_mul, Nat.mul_assoc]
  rcases Nat.lt_trichotomy (num / den) whole with hLt | hEq | hLt
  · have hLe : (num / den + 1) * den ≤ whole * den := Nat.mul_le_mul_right _ hLt
    rw [Nat.succ_mul] at hLe
    have hNear := divNearest_le .toEven num den
    exact ⟨fun _ => by omega, fun _ => by omega⟩
  · rw [divNearest, hEq, Tie.roundsUp, hMiddle]
    rw [hEq] at hSplit
    by_cases hTie : 2 * (num % den) = den
    · simp only [hTie, if_true, hOdd, decide_true]
      omega
    · rw [if_neg hTie]
      by_cases hUp : den < 2 * (num % den)
      · simp only [hUp, decide_true, if_true]
        omega
      · simp only [hUp, decide_false, Bool.false_eq_true, if_false]
        omega
  · have hLe : (whole + 1) * den ≤ num / den * den := Nat.mul_le_mul_right _ hLt
    rw [Nat.succ_mul] at hLe
    have hNear := div_le_divNearest .toEven num den
    exact ⟨fun _ => by omega, fun _ => by omega⟩

/-! ### Spare places of a quotient

Quotients with `e + 1` spare places are rounded to the last magnitudes below the top. With fewer places
they are rounded to less, and with more places to no number. -/

section

variable {binade e spare num den : Nat}

theorem lt_top_of_spare_le (hBinade : 0 < binade) (hDen : 0 < den) (hSpare : spare ≤ e)
    (hUpper : num / den < 2 * binade * 2 ^ spare) :
    spare * binade + divNearest .toEven num (den * 2 ^ spare) < (e + 3) * binade ∧
      num < den * ((4 * binade - 1) * 2 ^ e) := by
  constructor
  · have hSmall : num / (den * 2 ^ spare) < 2 * binade := by
      rw [← Nat.div_div_eq_div_mul]
      exact (Nat.div_lt_iff_lt_mul (Nat.two_pow_pos _)).mpr hUpper
    -- A carry does not reach the top either.
    have hNear := divNearest_le .toEven num (den * 2 ^ spare)
    have hBelow : spare * binade ≤ e * binade := Nat.mul_le_mul_right _ hSpare
    have hMul : (e + 3) * binade = e * binade + 3 * binade := Nat.add_mul ..
    omega
  · calc num < den * (num / den + 1) := Nat.lt_mul_div_succ num hDen
      _ ≤ den * (2 * binade * 2 ^ spare) := Nat.mul_le_mul_left _ hUpper
      _ ≤ den * ((4 * binade - 1) * 2 ^ e) :=
        Nat.mul_le_mul_left _ (Nat.mul_le_mul (by omega)
          (Nat.pow_le_pow_right (by decide) hSpare))

/-- The greatest finite number is odd, so that the middle above it is rounded up. -/
theorem lt_top_iff_of_spare_eq (hBinade : 0 < binade) (hDen : 0 < den) :
    (e + 1) * binade + divNearest .toEven num (den * 2 ^ (e + 1)) < (e + 3) * binade ↔
      num < den * ((4 * binade - 1) * 2 ^ e) := by
  have hOdd : (2 * binade - 1) % 2 = 1 := by omega
  have hMiddle : divNearest .toEven num (den * 2 ^ (e + 1)) ≤ 2 * binade - 1 ↔ _ :=
    divNearest_le_iff_of_odd hOdd (Nat.mul_pos hDen (Nat.two_pow_pos (e + 1)))
  have hTwice : (2 * (2 * binade - 1) + 1) * (den * 2 ^ (e + 1)) =
      2 * (den * ((4 * binade - 1) * 2 ^ e)) := by
    rw [show 2 * (2 * binade - 1) + 1 = 4 * binade - 1 by omega, Nat.pow_succ]
    ring
  have hMul : (e + 3) * binade = (e + 1) * binade + 2 * binade := by ring
  rw [hTwice] at hMiddle
  omega

theorem top_le_of_lt_spare (hSpare : e + 1 < spare) (hLower : binade * 2 ^ spare ≤ num / den) :
    (e + 3) * binade ≤ spare * binade + divNearest .toEven num (den * 2 ^ spare) ∧
      den * ((4 * binade - 1) * 2 ^ e) ≤ num := by
  constructor
  · have hLarge : binade ≤ num / (den * 2 ^ spare) := by
      rw [← Nat.div_div_eq_div_mul]
      exact (Nat.le_div_iff_mul_le (Nat.two_pow_pos _)).mpr hLower
    have hNear := div_le_divNearest .toEven num (den * 2 ^ spare)
    have hAbove : (e + 2) * binade ≤ spare * binade := Nat.mul_le_mul_right _ hSpare
    have hMul : (e + 3) * binade = (e + 2) * binade + binade := by ring
    omega
  · calc den * ((4 * binade - 1) * 2 ^ e) ≤ den * (4 * binade * 2 ^ e) :=
          Nat.mul_le_mul_left _ (Nat.mul_le_mul_right _ (by omega))
      _ = den * (binade * 2 ^ (e + 2)) := by ring
      _ ≤ den * (binade * 2 ^ spare) :=
        Nat.mul_le_mul_left _ (Nat.mul_le_mul_left _ (Nat.pow_le_pow_right (by decide) hSpare))
      _ ≤ den * (num / den) := Nat.mul_le_mul_left _ hLower
      _ ≤ num := Nat.mul_div_le num den

end

namespace Format

/-- The middle between the greatest finite number and the power of two behind it, in units. -/
def limit (F : Format) : Nat := (4 * F.binade - 1) * 2 ^ (F.top / F.binade - 3)

/-- The finite numbers fill whole binades, some of them with fractions. -/
structure IsRegular (F : Format) : Prop where
  dvd : F.binade ∣ F.top
  three_le : 3 ≤ F.top / F.binade

theorem isRegular_double : double.IsRegular := ⟨by decide +kernel, by decide +kernel⟩

/-- A quotient without its spare places. -/
theorem div_spare_lt (F : Format) (q : Nat) :
    q < 2 * F.binade * 2 ^ (q.log2 - F.fractionBits) := by
  calc q < 2 ^ (q.log2 + 1) := Nat.lt_log2_self
    _ ≤ 2 ^ (F.fractionBits + 1 + (q.log2 - F.fractionBits)) :=
      Nat.pow_le_pow_right (by decide) (by omega)
    _ = 2 * F.binade * 2 ^ (q.log2 - F.fractionBits) := by
      rw [Nat.pow_add, Nat.pow_succ, Nat.mul_comm 2, binade, Nat.pow_eq]

theorem le_div_spare {F : Format} {q : Nat} (hSpare : 0 < q.log2 - F.fractionBits) :
    F.binade * 2 ^ (q.log2 - F.fractionBits) ≤ q := by
  have hPos : q ≠ 0 := by
    rintro rfl
    simp at hSpare
  calc F.binade * 2 ^ (q.log2 - F.fractionBits)
      = 2 ^ q.log2 := by
        rw [binade, Nat.pow_eq, ← Nat.pow_add]
        congr 1
        omega
    _ ≤ q := Nat.log2_self_le hPos

/-- **A quotient is rounded to a finite number exactly below the limit.** -/
theorem nearest_lt_top_iff {F : Format} (hRegular : F.IsRegular) {num den : Nat} (hDen : 0 < den) :
    F.nearest num den < F.top ↔ num < den * F.limit := by
  obtain ⟨e, hBinades⟩ := Nat.exists_eq_add_of_le' hRegular.three_le
  have hTop : F.top = (e + 3) * F.binade := by
    rw [← hBinades, Nat.div_mul_cancel hRegular.dvd]
  have hLimit : F.limit = (4 * F.binade - 1) * 2 ^ e := by
    rw [limit, hBinades, Nat.add_sub_cancel]
  have hUpper := F.div_spare_lt (num / den)
  simp only [nearest, Nat.pow_eq]
  rw [hTop, hLimit]
  generalize hSpare : (num / den).log2 - F.fractionBits = spare at hUpper ⊢
  rcases Nat.lt_trichotomy spare (e + 1) with hLt | rfl | hLt
  · obtain ⟨hNear, hNum⟩ :=
      lt_top_of_spare_le F.binade_pos hDen (Nat.lt_succ_iff.mp hLt) hUpper
    exact iff_of_true hNear hNum
  · exact lt_top_iff_of_spare_eq F.binade_pos hDen
  · have hLower : F.binade * 2 ^ spare ≤ num / den := by
      rw [← hSpare]
      exact le_div_spare (by omega)
    obtain ⟨hNear, hNum⟩ := top_le_of_lt_spare hLt hLower
    exact iff_of_false (Nat.not_lt.mpr hNear) (Nat.not_lt.mpr hNum)

theorem one_pos (F : Format) : 0 < F.one := Nat.two_pow_pos _

theorem units_lt_limit {F : Format} (hRegular : F.IsRegular) {m : Nat} (hBounded : m < F.top) :
    F.units m < F.limit := by
  rw [← F.nearest_units m, nearest_lt_top_iff hRegular Nat.one_pos, Nat.one_mul] at hBounded
  exact hBounded

end Format

namespace Binary

variable {F : Format}

/-- The exact value of a finite number, in units. -/
def value : Binary F → Int
  | .finite negative m _ => signedUnits F negative m
  | .infinite _ => 0
  | .nan => 0

theorem natAbs_signedUnits (F : Format) (negative : Bool) (m : Nat) :
    (signedUnits F negative m).natAbs = F.units m := by
  cases negative <;> simp [signedUnits]

theorem natAbs_value_lt (hRegular : F.IsRegular) (x : Binary F) : x.value.natAbs < F.limit := by
  have hPos : 0 < F.limit := by
    have hBinade := F.binade_pos
    exact Nat.mul_pos (by omega) (Nat.two_pow_pos _)
  cases x with
  | finite negative m hBounded =>
    rw [value, natAbs_signedUnits]
    exact Format.units_lt_limit hRegular hBounded
  | infinite => exact hPos
  | nan => exact hPos

theorem isFinite_ofMagnitude (negative : Bool) (m : Nat) :
    (ofMagnitude negative m : Binary F).isFinite = true ↔ m < F.top := by
  rw [ofMagnitude]
  split_ifs with h
  · exact iff_of_true rfl h
  · exact iff_of_false Bool.false_ne_true h

theorem isFinite_ofUnits (hRegular : F.IsRegular) (negative : Bool) {num den : Nat}
    (hDen : 0 < den) :
    (ofUnits negative num den : Binary F).isFinite = true ↔ num < den * F.limit := by
  rw [ofUnits, isFinite_ofMagnitude, Format.nearest_lt_top_iff hRegular hDen]

theorem isFinite_ofNat (hRegular : F.IsRegular) (n : Nat) :
    (ofNat n : Binary F).isFinite = true ↔ n * F.one < F.limit := by
  rw [ofNat, isFinite_ofUnits hRegular false Nat.one_pos, Nat.one_mul]

/-! ### Negation -/

theorem isFinite_neg (x : Binary F) : (-x).isFinite = x.isFinite := by
  cases x <;> rfl

theorem value_neg (x : Binary F) : (-x).value = -x.value := by
  cases x with
  | finite negative m hBounded =>
    show signedUnits F (!negative) m = -signedUnits F negative m
    cases negative <;> simp [signedUnits]
  | infinite => rfl
  | nan => rfl

theorem neg_ofMagnitude (negative : Bool) (m : Nat) :
    -(ofMagnitude negative m : Binary F) = ofMagnitude (!negative) m := by
  rw [ofMagnitude, ofMagnitude]
  split_ifs <;> rfl

theorem neg_mul (x y : Binary F) : -x * y = -(x * y) := by
  cases x with
  | finite m j hj =>
    cases y with
    | finite n k hk =>
      show ofUnits ((!m) != n) _ _ = -ofUnits (m != n) _ _
      rw [ofUnits, ofUnits, neg_ofMagnitude, Bool.not_bne]
    | infinite n =>
      show (if j = 0 then nan else infinite ((!m) != n)) = -(if j = 0 then nan else infinite (m != n))
      split_ifs
      · rfl
      · rw [Bool.not_bne]
        rfl
    | nan => rfl
  | infinite m =>
    cases y with
    | finite n k hk =>
      show (if k = 0 then nan else infinite ((!m) != n)) = -(if k = 0 then nan else infinite (m != n))
      split_ifs
      · rfl
      · rw [Bool.not_bne]
        rfl
    | infinite n =>
      show infinite ((!m) != n) = -infinite (m != n)
      rw [Bool.not_bne]
      rfl
    | nan => rfl
  | nan => rfl

/-! ### Zeros -/

/-- A zero gives way to a zero. -/
theorem positiveZero_eq_or (x : Binary F) : x.positiveZero = x ∨
    ∃ negative hBounded, x = .finite negative 0 hBounded ∧
      x.positiveZero = .finite false 0 hBounded := by
  rw [positiveZero]
  cases x with
  | finite negative m hBounded =>
    by_cases hZero : m = 0
    · subst hZero
      exact .inr ⟨negative, hBounded, rfl, dif_pos hBounded⟩
    · exact .inl (if_neg (by simpa [isZero] using hZero))
  | infinite => exact .inl rfl
  | nan => exact .inl rfl

theorem isFinite_positiveZero (x : Binary F) : x.positiveZero.isFinite = x.isFinite := by
  rcases positiveZero_eq_or x with hSame | ⟨negative, hBounded, rfl, hZero⟩
  · rw [hSame]
  · rw [hZero]
    rfl

/-! ### Products and sums -/

/-- **A product is finite exactly if that of the values is below the limit.** -/
theorem isFinite_mul_iff (hRegular : F.IsRegular) (x y : Binary F) :
    (x * y).isFinite = true ↔ x.isFinite = true ∧ y.isFinite = true ∧
      x.value.natAbs * y.value.natAbs < F.one * F.limit := by
  cases x with
  | finite m j hj =>
    cases y with
    | finite n k hk =>
      show (ofUnits (m != n) (F.units j * F.units k) F.one : Binary F).isFinite = true ↔ _
      rw [isFinite_ofUnits hRegular _ F.one_pos, value, value, natAbs_signedUnits,
        natAbs_signedUnits]
      exact ⟨fun h => ⟨rfl, rfl, h⟩, fun h => h.2.2⟩
    | infinite n =>
      refine iff_of_false ?_ fun h => Bool.false_ne_true h.2.1
      show (if j = 0 then nan else infinite (m != n) : Binary F).isFinite ≠ true
      split_ifs <;> exact Bool.false_ne_true
    | nan => exact iff_of_false Bool.false_ne_true fun h => Bool.false_ne_true h.2.1
  | infinite m =>
    refine iff_of_false ?_ fun h => Bool.false_ne_true h.1
    cases y with
    | finite n k hk =>
      show (if k = 0 then nan else infinite (m != n) : Binary F).isFinite ≠ true
      split_ifs <;> exact Bool.false_ne_true
    | infinite | nan => exact Bool.false_ne_true
  | nan => exact iff_of_false Bool.false_ne_true fun h => Bool.false_ne_true h.1

/-- **A sum is finite exactly if that of the values is below the limit.** -/
theorem isFinite_add_iff (hRegular : F.IsRegular) (x y : Binary F) :
    (x + y).isFinite = true ↔ x.isFinite = true ∧ y.isFinite = true ∧
      (x.value + y.value).natAbs < F.limit := by
  cases x with
  | finite m j hj =>
    cases y with
    | finite n k hk =>
      show (if signedUnits F m j + signedUnits F n k = 0 then ofMagnitude (m && n) 0
        else ofUnits (signedUnits F m j + signedUnits F n k < 0)
          (signedUnits F m j + signedUnits F n k).natAbs 1 : Binary F).isFinite = true ↔ _
      rw [value, value]
      split_ifs with hZero
      · rw [isFinite_ofMagnitude, hZero]
        have hLimit := Format.units_lt_limit hRegular hj
        exact iff_of_true (Nat.zero_lt_of_lt hj) ⟨rfl, rfl, Nat.zero_lt_of_lt hLimit⟩
      · rw [isFinite_ofUnits hRegular _ Nat.one_pos, Nat.one_mul]
        exact ⟨fun h => ⟨rfl, rfl, h⟩, fun h => h.2.2⟩
    | infinite | nan => exact iff_of_false Bool.false_ne_true fun h => Bool.false_ne_true h.2.1
  | infinite m =>
    refine iff_of_false ?_ fun h => Bool.false_ne_true h.1
    cases y with
    | infinite n =>
      show (if m = n then infinite m else nan : Binary F).isFinite ≠ true
      split_ifs <;> exact Bool.false_ne_true
    | finite | nan => exact Bool.false_ne_true
  | nan => exact iff_of_false Bool.false_ne_true fun h => Bool.false_ne_true h.1

end Binary

end Diorama
