import Diorama.Number.Binary

/-!
# Bit patterns

The bit pattern of a number decides the number (`ofBits_toBits`).
-/

namespace Diorama.Binary

variable {F : Format}

/-- The number with a bit pattern. -/
def ofBits (bits : Nat) : Binary F :=
  let negative := decide (F.signBit ≤ bits)
  let magnitude := if negative then bits - F.signBit else bits
  if h : magnitude < F.top then .finite negative magnitude h
  else if magnitude = F.top then .infinite negative
  else .nan

theorem ofBits_signed {negative : Bool} {magnitude : Nat} (h : magnitude < F.signBit) :
    (ofBits ((if negative then F.signBit else 0) + magnitude) : Binary F) =
      if h : magnitude < F.top then .finite negative magnitude h
      else if magnitude = F.top then .infinite negative
      else .nan := by
  have hNegative : decide (F.signBit ≤ (if negative then F.signBit else 0) + magnitude) = negative := by
    cases negative with
    | true => exact decide_eq_true (by simp)
    | false => exact decide_eq_false (by simpa using h)
  have hMagnitude : (if negative then (if negative then F.signBit else 0) + magnitude - F.signBit
      else (if negative then F.signBit else 0) + magnitude) = magnitude := by
    cases negative <;> simp
  simp only [ofBits, hNegative, hMagnitude]

/-- **A number is found again by its bits**, if the format has room for what is no number. -/
theorem ofBits_toBits (hRoom : 1 < F.binade) (x : Binary F) : ofBits x.toBits = x := by
  have hSign : F.signBit = F.top + F.binade := rfl
  cases x with
  | finite negative magnitude hBounded =>
    rw [toBits, ofBits_signed (by omega), dif_pos hBounded]
  | infinite negative =>
    rw [toBits, ofBits_signed (by omega), dif_neg (Nat.lt_irrefl _), if_pos rfl]
  | nan =>
    have hNan : (ofBits ((if false then F.signBit else 0) + (F.top + F.binade / 2)) : Binary F) =
        _ := ofBits_signed (by omega)
    rw [if_neg (by simp), Nat.zero_add, dif_neg (by omega), if_neg (by omega)] at hNan
    exact hNan

theorem toBits_lt (x : Binary F) : x.toBits < 2 * F.signBit := by
  have hSign : F.signBit = F.top + F.binade := rfl
  have hPos : 0 < F.binade := Nat.two_pow_pos _
  cases x with
  | finite negative magnitude hBounded =>
    rw [toBits]
    split <;> omega
  | infinite negative =>
    rw [toBits]
    split <;> omega
  | nan =>
    rw [toBits]
    omega

end Diorama.Binary
