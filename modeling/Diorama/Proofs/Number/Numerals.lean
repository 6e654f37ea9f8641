import Mathlib.Data.List.Induction
import Diorama.Proofs.Number.Digits

/-!
# Numerals

A `Numeral` holds the parts of a written number: digits before and after the point, and a power of ten.
A proper one is read as its `value` (`IsProper.ofText?_text`). Digits whose point is written out, and
digits with a power of ten, are proper numerals that denote what the digits denoted before
(`exists_numeral_positional`, `exists_numeral_scientific`), as far as rounding can tell.
-/

namespace Diorama

/-- A number without sign: the digits before and after the point, and the power of ten, if one is
written. -/
structure Numeral where
  whole : List Char
  fraction : List Char
  power : Option Int

namespace Numeral

def fractionText (fraction : List Char) : List Char :=
  if fraction = [] then [] else '.' :: fraction

def powerText : Option Int → List Char
  | none => []
  | some power => 'e' :: (if power < 0 then '-' else '+') :: Nat.toDigits 10 power.natAbs

def text (n : Numeral) : List Char := n.whole ++ (fractionText n.fraction ++ powerText n.power)

/-- The decimal that the numeral denotes. -/
def value (n : Numeral) : Decimal :=
  ⟨natOfDigits (n.whole ++ n.fraction), n.power.getD 0 - n.fraction.length⟩

/-- All digits are digits, there are some before the point, and no zero comes before others. -/
structure IsProper (n : Numeral) : Prop where
  isDigit_whole : ∀ c ∈ n.whole, c.isDigit = true
  isDigit_fraction : ∀ c ∈ n.fraction, c.isDigit = true
  whole_ne_nil : n.whole ≠ []
  whole_eq : n.whole.head? = some '0' → n.whole = ['0']
  power_lt : ∀ power ∈ n.power, power.natAbs < 65536

end Numeral

/-! ### Reading numerals -/

/-- No digit comes first. -/
def NoDigitFirst (text : List Char) : Prop := ∀ c ∈ text.head?, c.isDigit = false

theorem takeWhile_digits {digits rest : List Char} (hDigits : ∀ c ∈ digits, c.isDigit = true)
    (hRest : NoDigitFirst rest) : (digits ++ rest).takeWhile Char.isDigit = digits := by
  rw [List.takeWhile_append_of_pos hDigits]
  cases rest with
  | nil => rw [List.takeWhile_nil, List.append_nil]
  | cons c rest =>
    rw [List.takeWhile_cons_of_neg (by simp [hRest c rfl]), List.append_nil]

theorem dropWhile_digits {digits rest : List Char} (hDigits : ∀ c ∈ digits, c.isDigit = true)
    (hRest : NoDigitFirst rest) : (digits ++ rest).dropWhile Char.isDigit = rest := by
  rw [List.dropWhile_append_of_pos hDigits]
  cases rest with
  | nil => rfl
  | cons c rest => exact List.dropWhile_cons_of_neg (by simp [hRest c rfl])

theorem natOfDigits_concat (digits : List Char) (c : Char) :
    natOfDigits (digits ++ [c]) = 10 * natOfDigits digits + (c.toNat - '0'.toNat) := by
  rw [natOfDigits, List.foldl_concat, natOfDigits]

/-- Exponents that are not too large are read digit by digit. -/
theorem exponentOfDigits_eq {digits : List Char} (h : natOfDigits digits < 65536) :
    exponentOfDigits digits = natOfDigits digits := by
  induction digits using List.reverseRecOn with
  | nil => rfl
  | append_singleton digits c ih =>
    rw [natOfDigits_concat] at h ⊢
    rw [exponentOfDigits, List.foldl_concat]
    show (if exponentOfDigits digits < 65536 then _ else _) = _
    have hDigits : exponentOfDigits digits = natOfDigits digits := ih (by omega)
    rw [hDigits, if_pos (by omega)]
    exact congrArg (10 * · + (c.toNat - '0'.toNat)) hDigits

namespace Numeral

variable {n : Numeral}

theorem noDigitFirst_powerText (power : Option Int) : NoDigitFirst (powerText power) := by
  cases power with
  | none => exact fun c hc => nomatch hc
  | some power =>
    rintro c hc
    obtain rfl := Option.some.inj hc
    rfl

theorem noDigitFirst_fractionText (fraction : List Char) (power : Option Int) :
    NoDigitFirst (fractionText fraction ++ powerText power) := by
  unfold fractionText
  split_ifs
  · exact noDigitFirst_powerText power
  · rintro c hc
    obtain rfl := Option.some.inj hc
    rfl

theorem exponentOfText?_powerText {power : Option Int} (h : ∀ p ∈ power, p.natAbs < 65536) :
    exponentOfText? (powerText power) = some (power.getD 0) := by
  cases power with
  | none => rfl
  | some power =>
    have hLt := h power rfl
    have hDigits : exponentOfDigits (Nat.toDigits 10 power.natAbs) = power.natAbs := by
      rw [exponentOfDigits_eq, natOfDigits_toDigits]
      rwa [natOfDigits_toDigits]
    have hAll : (Nat.toDigits 10 power.natAbs).all Char.isDigit = true :=
      List.all_eq_true.mpr fun c => isDigit_of_mem_toDigits
    have hSign : splitSign ((if power < 0 then '-' else '+') :: Nat.toDigits 10 power.natAbs) =
        (decide (power < 0), Nat.toDigits 10 power.natAbs) := by
      split_ifs with hNegative
      · rw [decide_eq_true hNegative]
        rfl
      · rw [decide_eq_false hNegative]
        rfl
    rw [powerText, exponentOfText?, hSign]
    simp only
    rw [if_pos ⟨by decide, Nat.toDigits_ne_nil, hAll⟩, hDigits, Option.getD_some]
    congr 1
    split_ifs with hNegative
    · rw [decide_eq_true_eq] at hNegative
      omega
    · rw [decide_eq_true_eq] at hNegative
      omega

/-- **A proper numeral denotes its value.** -/
theorem IsProper.ofText?_text (h : n.IsProper) : Decimal.ofText? n.text = some n.value := by
  have hWhole := h.isDigit_whole
  have hRest := noDigitFirst_fractionText n.fraction n.power
  have hNe := h.whole_ne_nil
  have hPower := exponentOfText?_powerText h.power_lt
  rw [text, Decimal.ofText?]
  simp only [takeWhile_digits hWhole hRest, dropWhile_digits hWhole hRest, hNe, false_and,
    if_false]
  by_cases hFraction : n.fraction = []
  · have hPoint : (powerText n.power).head? ≠ some '.' := by
      cases n.power with
      | none => exact nofun
      | some power => exact by simp [powerText]
    rw [fractionText, if_pos hFraction, List.nil_append, if_neg hPoint, if_neg hPoint, hPower,
      Option.map_some, value, hFraction, List.append_nil]
  · have hEnd := noDigitFirst_powerText n.power
    rw [fractionText, if_neg hFraction, List.cons_append, List.head?_cons, if_pos rfl, if_pos rfl,
      List.tail_cons, takeWhile_digits h.isDigit_fraction hEnd,
      dropWhile_digits h.isDigit_fraction hEnd, hPower, Option.map_some, value]

theorem IsProper.exists_head (h : n.IsProper) :
    ∃ c rest, n.text = c :: rest ∧ c.isDigit = true := by
  obtain ⟨c, rest, hWhole⟩ := List.exists_cons_of_ne_nil h.whole_ne_nil
  refine ⟨c, rest ++ (fractionText n.fraction ++ powerText n.power), ?_,
    h.isDigit_whole c (hWhole ▸ List.mem_cons_self)⟩
  rw [text, hWhole, List.cons_append]

theorem IsProper.isDigit_or_eq (h : n.IsProper) (hPower : n.power = none) {c : Char}
    (hc : c ∈ n.text) : c.isDigit = true ∨ c = '.' := by
  rw [text, hPower, powerText, List.append_nil, List.mem_append, fractionText] at hc
  rcases hc with hc | hc
  · exact .inl (h.isDigit_whole c hc)
  · split_ifs at hc
    · cases hc
    · rcases List.mem_cons.mp hc with hc | hc
      · exact .inr hc
      · exact .inl (h.isDigit_fraction c hc)

end Numeral

/-! ### Digit strings as numerals -/

theorem isDigit_of_mem_zeros {k : Nat} {c : Char} (hc : c ∈ List.replicate k '0') :
    c.isDigit = true := by
  rw [List.eq_of_mem_replicate hc]
  decide

namespace DigitString

open Numeral

variable {F : Format} {d : DigitString} {wholeEnd : String} {k : Nat}

/-- What a digit string has written out, if whole numbers end with zeros behind the point. -/
theorem positional_eq (hEnd : wholeEnd.toList = fractionText (List.replicate k '0'))
    (hNe : d.digits ≠ []) :
    d.positional wholeEnd =
      text (if d.point ≤ 0 then ⟨['0'], List.replicate (-d.point).toNat '0' ++ d.digits, none⟩
      else if d.digits.length ≤ d.point.toNat then
        ⟨d.digits ++ List.replicate (d.point.toNat - d.digits.length) '0', List.replicate k '0',
          none⟩
      else ⟨d.digits.take d.point.toNat, d.digits.drop d.point.toNat, none⟩) := by
  rw [positional]
  split_ifs with hSmall hLarge
  · simp [text, fractionText, powerText, hNe]
  · simp [text, powerText, hEnd]
  · have hDrop : d.digits.drop d.point.toNat ≠ [] := by
      rw [ne_eq, List.drop_eq_nil_iff]
      omega
    simp [text, fractionText, powerText, hDrop]

/-- **Digits whose point is written out denote what they denoted before.** -/
theorem exists_numeral_positional (hProper : d.IsProper)
    (hEnd : wholeEnd.toList = fractionText (List.replicate k '0')) :
    ∃ n : Numeral, n.IsProper ∧ n.power = none ∧ d.positional wholeEnd = n.text ∧
      ∀ negative, (Binary.ofDecimal negative n.value : Binary F) =
        Binary.ofDecimal negative d.value := by
  obtain ⟨hDigits, hNe, hHead⟩ := hProper
  refine ⟨_, ?_, ?_, positional_eq hEnd hNe, ?_⟩
  · split_ifs with hSmall hLarge
    · have hWhole : ∀ c ∈ ['0'], c.isDigit = true := fun _ hc => isDigit_of_mem_zeros (k := 1) hc
      exact ⟨hWhole, fun c hc => (List.mem_append.mp hc).elim isDigit_of_mem_zeros (hDigits c),
        List.cons_ne_nil _ _, fun _ => rfl, nofun⟩
    · refine ⟨fun c hc => (List.mem_append.mp hc).elim (hDigits c) isDigit_of_mem_zeros,
        fun c => isDigit_of_mem_zeros, List.append_ne_nil_of_left_ne_nil hNe _, fun h => ?_, nofun⟩
      rw [List.head?_append_of_ne_nil _ hNe] at h
      exact absurd h hHead
    · have hTake : d.digits.take d.point.toNat ≠ [] := by
        rw [ne_eq, List.take_eq_nil_iff, not_or]
        exact ⟨by omega, hNe⟩
      refine ⟨fun c hc => hDigits c (List.mem_of_mem_take hc),
        fun c hc => hDigits c (List.mem_of_mem_drop hc), hTake, fun h => ?_, nofun⟩
      rw [List.head?_take, if_neg (by omega)] at h
      exact absurd h hHead
  · split_ifs <;> rfl
  · intro negative
    split_ifs with hSmall hLarge
    · have hNumber : natOfDigits (['0'] ++ (List.replicate (-d.point).toNat '0' ++ d.digits)) =
          natOfDigits d.digits := by
        show natOfDigits (List.replicate 1 '0' ++ _) = _
        rw [natOfDigits_zeros_append, natOfDigits_zeros_append]
      have hPoint : (0 : Int) - (List.replicate (-d.point).toNat '0' ++ d.digits).length =
          d.point - d.digits.length := by
        rw [List.length_append, List.length_replicate]
        omega
      rw [Numeral.value, hNumber, Option.getD_none, hPoint, value]
    · have hPoint : (0 : Int) - k + k + (d.point.toNat - d.digits.length : Nat) =
          d.point - d.digits.length := by
        omega
      rw [Numeral.value, natOfDigits_append_zeros, natOfDigits_append_zeros, Option.getD_none,
        List.length_replicate, Binary.ofDecimal_mul_pow, Binary.ofDecimal_mul_pow, hPoint, value]
    · have hPoint : (0 : Int) - (d.digits.drop d.point.toNat).length =
          d.point - d.digits.length := by
        rw [List.length_drop]
        omega
      rw [Numeral.value, List.take_append_drop, Option.getD_none, hPoint, value]

/-- **Digits with a power of ten denote what they denoted before.** -/
theorem exists_numeral_scientific (hProper : d.IsProper) (hPoint : (d.point - 1).natAbs < 65536) :
    ∃ n : Numeral, n.IsProper ∧ d.scientific = n.text ∧ n.value = d.value := by
  obtain ⟨hDigits, hNe, hHead⟩ := hProper
  have hLength : 1 ≤ d.digits.length := List.length_pos_iff.mpr hNe
  have hTake : d.digits.take 1 ≠ [] := by
    rw [ne_eq, List.take_eq_nil_iff, not_or]
    exact ⟨Nat.one_ne_zero, hNe⟩
  refine ⟨⟨d.digits.take 1, d.digits.drop 1, some (d.point - 1)⟩,
    ⟨fun c hc => hDigits c (List.mem_of_mem_take hc),
      fun c hc => hDigits c (List.mem_of_mem_drop hc), hTake, fun h => ?_, ?_⟩, ?_, ?_⟩
  · rw [List.head?_take, if_neg Nat.one_ne_zero] at h
    exact absurd h hHead
  · rintro power hPower
    obtain rfl := Option.some.inj hPower
    exact hPoint
  · have hFraction : fractionText (d.digits.drop 1) =
        if d.digits.length ≤ 1 then [] else '.' :: d.digits.drop 1 := by
      simp only [fractionText, List.drop_eq_nil_iff]
    rw [scientific, text, hFraction, List.append_assoc]
    rfl
  · rw [Numeral.value, List.take_append_drop, List.length_drop, value, Option.getD_some]
    congr 1
    omega

end DigitString

end Diorama
