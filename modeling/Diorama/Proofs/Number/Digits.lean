import Mathlib.Data.List.DropRight
import Mathlib.Tactic.Ring
import Diorama.Number.Style
import Diorama.Proofs.Number.Rounding
import Diorama.Text.Blank

/-!
# Digits and the decimals they denote

A digit string denotes the decimal `DigitString.value`. Dropping trailing zeros does not change what
is denoted (`ofDecimal_value_ofDecimal`), as far as rounding can tell.
-/

namespace Diorama

/-! ### Decimals of one value -/

theorem toDigits_mul_pow {n : Nat} (hn : 0 < n) (k : Nat) :
    Nat.toDigits 10 (n * 10 ^ k) = Nat.toDigits 10 n ++ List.replicate k '0' := by
  induction k with
  | zero => simp
  | succ k ih =>
    have hStep := Nat.toDigits_append_toDigits (b := 10) (by decide)
      (Nat.mul_pos hn (Nat.pow_pos (n := k) (by decide : 0 < 10))) (by decide : 0 < 10)
    rw [Nat.toDigits_zero, Nat.add_zero, ih] at hStep
    rw [Nat.pow_succ, ← Nat.mul_assoc, Nat.mul_comm _ 10, ← hStep, List.append_assoc,
      List.replicate_succ']

namespace Format

theorem nearest_congr (F : Format) {num den num' den' : Nat} (hDen : 0 < den) (hDen' : 0 < den')
    (hSame : num * den' = num' * den) : F.nearest num den = F.nearest num' den' := by
  rw [← F.nearest_mul_right num den hDen', hSame, Nat.mul_comm den, F.nearest_mul_right _ _ hDen]

end Format

namespace Binary

variable {F : Format}

/-- A decimal in the range of the format is rounded as a quotient of whole numbers. -/
theorem ofDecimal_eq (negative : Bool) (d : Decimal) :
    (ofDecimal negative d : Binary F) =
      if d.digits = 0 ∨ d.pointPosition < -F.point then ofMagnitude negative 0
      else if F.point < d.pointPosition then .infinite negative
      else ofUnits negative (d.digits * 10 ^ d.exponent.toNat * F.one) (10 ^ (-d.exponent).toNat) := by
  unfold ofDecimal
  cases d with
  | mk digits exponent =>
    cases exponent with
    | ofNat n => simp [Nat.pow_eq]
    | negSucc n => simp [Nat.pow_eq, Int.neg_negSucc]

theorem pointPosition_mul_pow {n : Nat} (hn : 0 < n) (k : Nat) (e : Int) :
    Decimal.pointPosition ⟨n * 10 ^ k, e⟩ = Decimal.pointPosition ⟨n, e + k⟩ := by
  simp only [Decimal.pointPosition]
  rw [toDigits_mul_pow hn, List.length_append, List.length_replicate]
  omega

/-- Powers of ten may be moved between the digits and the exponent. -/
theorem ofDecimal_mul_pow (negative : Bool) (n k : Nat) (e : Int) :
    (ofDecimal negative ⟨n * 10 ^ k, e⟩ : Binary F) = ofDecimal negative ⟨n, e + k⟩ := by
  rcases Nat.eq_zero_or_pos n with rfl | hn
  · simp [ofDecimal_eq]
  · have hDigits : n * 10 ^ k = 0 ↔ n = 0 := by simp
    have hUnits : F.nearest (n * 10 ^ k * 10 ^ e.toNat * F.one) (10 ^ (-e).toNat) =
        F.nearest (n * 10 ^ (e + k).toNat * F.one) (10 ^ (-(e + k)).toNat) := by
      refine F.nearest_congr (Nat.pow_pos (by decide)) (Nat.pow_pos (by decide)) ?_
      have hPower : k + e.toNat + (-(e + k)).toNat = (e + k).toNat + (-e).toNat := by omega
      calc n * 10 ^ k * 10 ^ e.toNat * F.one * 10 ^ (-(e + k)).toNat
          = n * F.one * 10 ^ (k + e.toNat + (-(e + k)).toNat) := by
            rw [Nat.pow_add, Nat.pow_add]
            ring
        _ = n * 10 ^ (e + k).toNat * F.one * 10 ^ (-e).toNat := by
            rw [hPower, Nat.pow_add]
            ring
    simp only [ofDecimal_eq, pointPosition_mul_pow hn, hDigits, ofUnits, hUnits]

end Binary

/-! ### Runs of digits -/

theorem exists_digitChar {c : Char} (hc : c.isDigit = true) : ∃ n < 10, c = Nat.digitChar n := by
  have hBounds : 48 ≤ c.toNat ∧ c.toNat ≤ 57 := by
    simpa [Char.isDigit, UInt32.le_iff_toNat_le] using hc
  refine ⟨c.toNat - 48, by omega, Char.toNat_inj.mp ?_⟩
  rw [Nat.toNat_digitChar_of_lt_ten (by omega)]
  omega

theorem isBlank_of_isDigit {c : Char} (hc : c.isDigit = true) : Text.isBlank c = false := by
  obtain ⟨n, hn, rfl⟩ := exists_digitChar hc
  revert n
  decide

theorem isDigit_of_mem_toDigits {n : Nat} {c : Char} (hc : c ∈ Nat.toDigits 10 n) :
    c.isDigit = true :=
  Nat.isDigit_of_mem_toDigits (by decide) (by decide) hc

theorem natOfDigits_eq (digits : List Char) : natOfDigits digits = Nat.ofDigitChars 10 digits 0 :=
  Nat.ofDigitChars_eq_foldl.symm

theorem natOfDigits_toDigits (n : Nat) : natOfDigits (Nat.toDigits 10 n) = n := by
  rw [natOfDigits_eq, Nat.ofDigitChars_ten_toDigits]

theorem natOfDigits_append_zeros (digits : List Char) (k : Nat) :
    natOfDigits (digits ++ List.replicate k '0') = natOfDigits digits * 10 ^ k := by
  rw [natOfDigits_eq, Nat.ofDigitChars_append, Nat.ofDigitChars_replicate_zero, natOfDigits_eq,
    Nat.mul_comm]

theorem natOfDigits_zeros_append (k : Nat) (digits : List Char) :
    natOfDigits (List.replicate k '0' ++ digits) = natOfDigits digits := by
  rw [natOfDigits_eq, Nat.ofDigitChars_append, Nat.ofDigitChars_replicate_zero, Nat.mul_zero,
    natOfDigits_eq]

namespace DigitString

/-- The decimal that the digits denote. -/
def value (d : DigitString) : Decimal := ⟨natOfDigits d.digits, d.point - d.digits.length⟩

/-- The digits without trailing zeros, and how many zeros there were. -/
theorem exists_zeros (d : Decimal) :
    ∃ k, Nat.toDigits 10 d.digits = (ofDecimal d).digits ++ List.replicate k '0' := by
  have hSplit := List.rdropWhile_append_rtakeWhile (p := fun c => decide (c = '0'))
    (l := Nat.toDigits 10 d.digits)
  refine ⟨_, hSplit.symm.trans (congrArg _ (List.eq_replicate_of_mem fun c hc => ?_))⟩
  have hZero := List.mem_rtakeWhile_imp hc
  exact of_decide_eq_true hZero

theorem isDigit_of_mem_ofDecimal {d : Decimal} {c : Char} (hc : c ∈ (ofDecimal d).digits) :
    c.isDigit = true := by
  obtain ⟨k, hDigits⟩ := exists_zeros d
  have hMem : c ∈ Nat.toDigits 10 d.digits := by
    rw [hDigits]
    exact List.mem_append_left _ hc
  exact isDigit_of_mem_toDigits hMem

/-- **Trailing zeros do not change what digits denote.** -/
theorem ofDecimal_value_ofDecimal {F : Format} (negative : Bool) (d : Decimal) :
    (Binary.ofDecimal negative (ofDecimal d).value : Binary F) = Binary.ofDecimal negative d := by
  obtain ⟨k, hDigits⟩ := exists_zeros d
  have hNumber : d.digits = natOfDigits (ofDecimal d).digits * 10 ^ k := by
    rw [← natOfDigits_append_zeros, ← hDigits, natOfDigits_toDigits]
  have hLength := congrArg List.length hDigits
  rw [List.length_append, List.length_replicate] at hLength
  have hPoint : (ofDecimal d).point - (ofDecimal d).digits.length = d.exponent + k := by
    show d.pointPosition - _ = _
    rw [Decimal.pointPosition]
    omega
  have hMove := Binary.ofDecimal_mul_pow (F := F) negative (natOfDigits (ofDecimal d).digits) k
    d.exponent
  rw [value, hPoint, ← hMove, ← hNumber]

end DigitString

/-! ### First digits -/

theorem head?_toDigits_ne {n : Nat} (hn : 0 < n) : (Nat.toDigits 10 n).head? ≠ some '0' := by
  induction n using Nat.strongRecOn with
  | ind n ih =>
    by_cases hSmall : n < 10
    · have hChars : ∀ k < 10, 0 < k → some (Nat.digitChar k) ≠ some '0' := by decide
      rw [Nat.toDigits_of_lt_base hSmall, List.head?_cons]
      exact hChars n hSmall hn
    · have hSplit := Nat.toDigits_append_toDigits (b := 10) (n := n / 10) (d := n % 10) (by decide)
        (by omega) (by omega)
      rw [Nat.div_add_mod] at hSplit
      have hHead := ih (n / 10) (by omega) (by omega)
      rwa [← hSplit, List.head?_append_of_ne_nil _ Nat.toDigits_ne_nil]

/-- Digits, at least one, and no zero in front. -/
structure DigitString.IsProper (d : DigitString) : Prop where
  isDigit : ∀ c ∈ d.digits, c.isDigit = true
  ne_nil : d.digits ≠ []
  head?_ne : d.digits.head? ≠ some '0'

/-- The digits of a positive decimal. -/
theorem DigitString.isProper_ofDecimal {d : Decimal} (hd : 0 < d.digits) :
    (ofDecimal d).IsProper := by
  obtain ⟨k, hDigits⟩ := exists_zeros d
  have hHead := head?_toDigits_ne hd
  have hNe : (ofDecimal d).digits ≠ [] := by
    intro hNil
    rw [hDigits, hNil, List.nil_append] at hHead
    cases k with
    | zero =>
      rw [hNil] at hDigits
      exact Nat.toDigits_ne_nil hDigits
    | succ k => exact hHead rfl
  rw [hDigits, List.head?_append_of_ne_nil _ hNe] at hHead
  exact ⟨fun _ => isDigit_of_mem_ofDecimal, hNe, hHead⟩

end Diorama
