import Diorama.Proofs.Number.Numerals
import Diorama.Proofs.Number.Order

/-!
# Numbers read back

The shortest digits of a magnitude read back as that magnitude: either they were tried, or they are
the exact ones (`ofDecimal_shortest`). So in every style a finite number is written as a numeral
(`exists_numeral_bodyText`), and read back with its sign and with every bit
(`ofText?_text_of_hasZerosEnd`).
-/

namespace Diorama

namespace Binary

variable {F : Format}

theorem eq_of_ofMagnitude_eq {negative : Bool} {m n : Nat} (hBounded : n < F.top)
    (h : (ofMagnitude negative m : Binary F) = ofMagnitude negative n) : m = n := by
  unfold ofMagnitude at h
  rw [dif_pos hBounded] at h
  split_ifs at h with hm
  · exact (Binary.finite.injEq .. ▸ h).2

theorem ofMagnitude_eq_finite {negative : Bool} {m : Nat} (hBounded : m < F.top) :
    (ofMagnitude negative m : Binary F) = .finite negative m hBounded := dif_pos hBounded

/-- A decimal reads back with either sign. -/
theorem ofDecimal_of_false {d : Decimal} {m : Nat} (hBounded : m < F.top)
    (h : (ofDecimal false d : Binary F) = ofMagnitude false m) (negative : Bool) :
    (ofDecimal negative d : Binary F) = ofMagnitude negative m := by
  rw [ofDecimal_eq] at h ⊢
  split_ifs at h ⊢ with hZero hLarge
  · rw [eq_of_ofMagnitude_eq hBounded h]
  · rw [ofMagnitude_eq_finite hBounded] at h
    cases h
  · rw [ofUnits] at h ⊢
    rw [eq_of_ofMagnitude_eq hBounded h]

end Binary

namespace Format

/-! ### Exact decimals -/

/-- The exact decimal reads back, if it is in the range that is looked at. -/
theorem ofDecimal_exactDecimal {F : Format} {m : Nat} (hPoint : 0 < F.point)
    (hSmall : F.units m < 2 ^ F.point * 10 ^ F.point) :
    (Binary.ofDecimal false (F.exactDecimal m) : Binary F) = .ofMagnitude false m := by
  have hDigits : F.units m * 5 ^ F.point = 0 ↔ m = 0 := by
    rw [Nat.mul_eq_zero, units_eq_zero_iff, or_iff_left (Nat.pow_pos (by decide)).ne']
  have hLength : (Nat.toDigits 10 (F.units m * 5 ^ F.point)).length ≤ 2 * F.point := by
    rw [Nat.length_toDigits_le_iff (by decide) (by omega)]
    calc F.units m * 5 ^ F.point < 2 ^ F.point * 10 ^ F.point * 5 ^ F.point :=
          Nat.mul_lt_mul_of_pos_right hSmall (Nat.pow_pos (by decide))
      _ = 10 ^ (2 * F.point) := by
          rw [Nat.two_mul (F.point), Nat.pow_add, Nat.mul_right_comm, ← Nat.mul_pow]
  have hUnits : F.nearest (F.units m * 5 ^ F.point * 10 ^ 0 * F.one) (10 ^ F.point) = m := by
    have hTen : F.units m * 5 ^ F.point * 10 ^ 0 * F.one = F.units m * 10 ^ F.point := by
      rw [one, Nat.pow_eq, Nat.pow_zero, Nat.mul_one, Nat.mul_assoc, ← Nat.mul_pow]
    have hScale := F.nearest_mul_right (F.units m) 1 (k := 10 ^ F.point)
      (Nat.pow_pos (by decide))
    rw [Nat.one_mul] at hScale
    rw [hTen, hScale, nearest_units]
  have hNat : (-(F.point : Int)).toNat = 0 := by omega
  have hNeg : (-(-(F.point : Int))).toNat = F.point := by omega
  rw [Binary.ofDecimal_eq]
  simp only [exactDecimal, Decimal.pointPosition, Nat.pow_eq, hDigits, hNat, hNeg]
  split_ifs with hZero hLarge
  · rcases hZero with rfl | hBelow
    · rfl
    · omega
  · omega
  · rw [Binary.ofUnits, hUnits]

theorem units_lt {F : Format} {m : Nat} (hBounded : m < F.top) :
    F.units m < 2 * F.binade * 2 ^ (F.top / F.binade) := by
  by_cases h : m < F.binade
  · rw [units, if_pos h]
    calc m < F.binade := h
      _ ≤ 2 * F.binade := by omega
      _ ≤ 2 * F.binade * 2 ^ (F.top / F.binade) := Nat.le_mul_of_pos_right _ (Nat.two_pow_pos _)
  · have hMod := Nat.mod_lt m F.binade_pos
    have hDiv : m / F.binade - 1 ≤ F.top / F.binade :=
      (Nat.sub_le _ _).trans (Nat.div_le_div_right hBounded.le)
    rw [units_of_binade_le (Nat.le_of_not_lt h), Nat.two_mul]
    calc (F.binade + m % F.binade) * 2 ^ (m / F.binade - 1)
        < (F.binade + F.binade) * 2 ^ (m / F.binade - 1) :=
          Nat.mul_lt_mul_of_pos_right (Nat.add_lt_add_left hMod _) (Nat.two_pow_pos _)
      _ ≤ (F.binade + F.binade) * 2 ^ (F.top / F.binade) :=
          Nat.mul_le_mul_left _ (Nat.pow_le_pow_right (by decide) hDiv)

/-- All numbers of the format are in the range of decimals that is looked at. -/
structure HasRoom (F : Format) : Prop where
  point_pos : 0 < F.point
  point_lt : F.point < 65535
  room : 2 * F.binade * 2 ^ (F.top / F.binade) ≤ 2 ^ F.point * 10 ^ F.point

theorem hasRoom_double : double.HasRoom := ⟨by decide, by decide, by decide +kernel⟩

theorem hasRoom_single : single.HasRoom := ⟨by decide, by decide, by decide +kernel⟩

/-! ### Shortest decimals -/

/-- The shortest decimal was tried, or it is the exact one. -/
theorem ofDecimal_shortest_of_exact {F : Format} (tie : Tie) {m : Nat}
    (hExact : (Binary.ofDecimal false (F.exactDecimal m) : Binary F) = .ofMagnitude false m) :
    (Binary.ofDecimal false (F.shortest tie m) : Binary F) = .ofMagnitude false m := by
  unfold shortest
  simp only
  cases hFound : List.findSome? _ (List.range 17) with
  | none =>
    rw [Option.getD_none]
    exact hExact
  | some d =>
    obtain ⟨n, -, hGrid⟩ := List.exists_of_findSome?_eq_some hFound
    have hBack : F.readsBack m d = true := List.find?_some hGrid
    exact of_decide_eq_true hBack

theorem ofDecimal_shortest {F : Format} (hRoom : F.HasRoom) (tie : Tie) {m : Nat}
    (hBounded : m < F.top) :
    (Binary.ofDecimal false (F.shortest tie m) : Binary F) = .ofMagnitude false m :=
  ofDecimal_shortest_of_exact tie
    (ofDecimal_exactDecimal hRoom.point_pos ((units_lt hBounded).trans_le hRoom.room))

/-- A decimal that reads back as a positive magnitude is not zero, and its point is not far away. -/
theorem pointPosition_of_ofDecimal {F : Format} {d : Decimal} {m : Nat} (hPos : m ≠ 0)
    (hBounded : m < F.top) (h : (Binary.ofDecimal false d : Binary F) = .ofMagnitude false m) :
    0 < d.digits ∧ d.pointPosition.natAbs ≤ F.point := by
  rw [Binary.ofDecimal_eq] at h
  split_ifs at h with hZero hLarge
  · exact absurd (Binary.eq_of_ofMagnitude_eq hBounded h).symm hPos
  · rw [Binary.ofMagnitude_eq_finite hBounded] at h
    cases h
  · rw [not_or] at hZero
    omega

end Format

/-! ### Written numbers -/

namespace NumberStyle

/-- The text of a magnitude, with zero among them. -/
def bodyText (style : NumberStyle) (F : Format) (m : Nat) : List Char :=
  if m = 0 then '0' :: style.wholeEnd.toList else style.magnitudeText F m

theorem text_finite {F : Format} (style : NumberStyle) (negative : Bool) {m : Nat}
    (hBounded : m < F.top) :
    style.text (.finite negative m hBounded : Binary F) =
      signText negative ++ style.bodyText F m := rfl

/-- Whole numbers end with nothing, or with zeros behind a point. -/
def HasZerosEnd (style : NumberStyle) : Prop :=
  ∃ k, style.wholeEnd.toList = Numeral.fractionText (List.replicate k '0')

theorem hasZerosEnd_plain : plain.HasZerosEnd := ⟨0, rfl⟩

variable {style : NumberStyle} {F : Format}

/-- Only a style with bounds writes powers of ten. -/
theorem exists_numeral_magnitudeText (hEnd : style.HasZerosEnd) {d : DigitString}
    (hProper : d.IsProper) (hPoint : (d.point - 1).natAbs < 65536) :
    ∃ n : Numeral, n.IsProper ∧ (style.positional = none → n.power = none) ∧
      (match style.positional with
        | none => d.positional style.wholeEnd
        | some (least, greatest) =>
          if least ≤ d.point ∧ d.point ≤ greatest then d.positional style.wholeEnd
          else d.scientific) = n.text ∧
      ∀ negative, (Binary.ofDecimal negative n.value : Binary F) =
        Binary.ofDecimal negative d.value := by
  obtain ⟨k, hEnd⟩ := hEnd
  obtain ⟨n, hNumeral, hNone, hText, hValue⟩ :=
    DigitString.exists_numeral_positional (F := F) hProper hEnd
  obtain ⟨n', hNumeral', hText', hValue'⟩ :=
    DigitString.exists_numeral_scientific hProper hPoint
  cases style.positional with
  | none => exact ⟨n, hNumeral, fun _ => hNone, hText, hValue⟩
  | some bounds =>
    by_cases hBounds : bounds.1 ≤ d.point ∧ d.point ≤ bounds.2
    · exact ⟨n, hNumeral, nofun, (if_pos hBounds).trans hText, hValue⟩
    · exact ⟨n', hNumeral', nofun, (if_neg hBounds).trans hText', fun _ => by rw [hValue']⟩

/-- **Every magnitude is written as a numeral, which denotes it with either sign.** -/
theorem exists_numeral_bodyText (hRoom : F.HasRoom) (hEnd : style.HasZerosEnd) {m : Nat}
    (hBounded : m < F.top) :
    ∃ n : Numeral, n.IsProper ∧ (style.positional = none → n.power = none) ∧
      style.bodyText F m = n.text ∧
      ∀ negative, (Binary.ofDecimal negative n.value : Binary F) = .ofMagnitude negative m := by
  unfold bodyText
  split_ifs with hZero
  · obtain ⟨k, hEnd⟩ := hEnd
    refine ⟨⟨['0'], List.replicate k '0', none⟩, ⟨fun _ hc => isDigit_of_mem_zeros (k := 1) hc,
      fun _ => isDigit_of_mem_zeros, List.cons_ne_nil _ _, fun _ => rfl, nofun⟩, fun _ => rfl, ?_,
      fun negative => ?_⟩
    · rw [Numeral.text, hEnd, Numeral.powerText, List.append_nil]
      rfl
    · have hNumber : natOfDigits (['0'] ++ List.replicate k '0') = 0 := by
        rw [natOfDigits_append_zeros]
        exact Nat.zero_mul _
      rw [Binary.ofDecimal_eq, if_pos (.inl hNumber), hZero]
  · have hShortest := Format.ofDecimal_shortest hRoom style.tie hBounded
    obtain ⟨hDigits, hPoint⟩ := Format.pointPosition_of_ofDecimal hZero hBounded hShortest
    have hRange : ((DigitString.ofDecimal (F.shortest style.tie m)).point - 1).natAbs < 65536 := by
      have hLt := hRoom.point_lt
      show ((F.shortest style.tie m).pointPosition - 1).natAbs < 65536
      omega
    obtain ⟨n, hNumeral, hPower, hText, hValue⟩ := exists_numeral_magnitudeText (F := F) hEnd
      (DigitString.isProper_ofDecimal hDigits) hRange
    refine ⟨n, hNumeral, hPower, hText, fun negative => ?_⟩
    rw [hValue, DigitString.ofDecimal_value_ofDecimal]
    exact Binary.ofDecimal_of_false hBounded hShortest negative

end NumberStyle

theorem toLower_of_isDigit {c : Char} (hc : c.isDigit = true) : c.toLower = c := by
  obtain ⟨n, hn, rfl⟩ := exists_digitChar hc
  revert n
  decide

theorem splitSign_signText {c : Char} {rest : List Char} (hc : c.isDigit = true)
    (negative : Bool) :
    splitSign (NumberStyle.signText negative ++ c :: rest) = (negative, c :: rest) := by
  cases negative with
  | true => rfl
  | false =>
    show splitSign (c :: rest) = _
    unfold splitSign
    split
    · next h =>
      cases h
      exact absurd hc (by decide)
    · next h =>
      cases h
      exact absurd hc (by decide)
    · rfl

/-- A numeral is no name of a number. -/
theorem ofList_map_toLower_ne {c : Char} {rest : List Char} (hc : c.isDigit = true) {word : String}
    (hWord : word.toList.head?.all fun d => !d.isDigit) (hNe : word ≠ "") :
    String.ofList ((c :: rest).map Char.toLower) ≠ word := by
  rintro rfl
  simp [toLower_of_isDigit hc, hc] at hWord

theorem Binary.ofText?_signText {F : Format} {c : Char} {rest : List Char}
    (hc : c.isDigit = true) (negative : Bool) :
    (Binary.ofText? (NumberStyle.signText negative ++ c :: rest) : Option (Binary F)) =
      (Decimal.ofText? (c :: rest)).map (ofDecimal negative) := by
  rw [Binary.ofText?, splitSign_signText hc]
  simp only
  rw [if_neg, if_neg]
  · exact ofList_map_toLower_ne hc (by decide) (by decide)
  · rintro (h | h)
    · exact ofList_map_toLower_ne hc (by decide) (by decide) h
    · exact ofList_map_toLower_ne hc (by decide) (by decide) h

/-- **Every finite number is read back from its text.** -/
theorem Binary.ofText?_text_of_hasZerosEnd {F : Format} (hRoom : F.HasRoom) {style : NumberStyle}
    (hEnd : style.HasZerosEnd) {x : Binary F} (hFinite : x.isFinite = true) :
    (Binary.ofText? (style.text x) : Option (Binary F)) = some x := by
  cases x with
  | infinite negative => cases hFinite
  | nan => cases hFinite
  | finite negative m hBounded =>
    obtain ⟨n, hNumeral, -, hBody, hValue⟩ :=
      NumberStyle.exists_numeral_bodyText hRoom hEnd hBounded
    obtain ⟨c, rest, hText, hc⟩ := hNumeral.exists_head
    have hRead := hNumeral.ofText?_text
    rw [hText] at hRead
    rw [NumberStyle.text_finite, hBody, hText, ofText?_signText hc, hRead, Option.map_some, hValue,
      ofMagnitude_eq_finite hBounded]

theorem Binary.ofText?_text {x : Double} (hFinite : x.isFinite = true) :
    (Binary.ofText? (NumberStyle.plain.text x) : Option Double) = some x :=
  ofText?_text_of_hasZerosEnd Format.hasRoom_double NumberStyle.hasZerosEnd_plain hFinite

/-- The text of a finite number, by its sign and its digits. -/
theorem NumberStyle.exists_numeral_plain {x : Double} (hFinite : x.isFinite = true) :
    ∃ negative, ∃ n : Numeral, n.IsProper ∧ n.power = none ∧
      plain.text x = signText negative ++ n.text := by
  cases x with
  | infinite negative => cases hFinite
  | nan => cases hFinite
  | finite negative m hBounded =>
    obtain ⟨n, hNumeral, hPower, hBody, -⟩ :=
      exists_numeral_bodyText Format.hasRoom_double hasZerosEnd_plain hBounded
    exact ⟨negative, n, hNumeral, hPower rfl, by rw [text_finite, hBody]⟩

theorem NumberStyle.mem_text_plain {x : Double} (hFinite : x.isFinite = true) {c : Char}
    (hc : c ∈ plain.text x) : c.isDigit = true ∨ c = '.' ∨ c = '-' := by
  obtain ⟨negative, n, hNumeral, hPower, hText⟩ := exists_numeral_plain hFinite
  rw [hText] at hc
  rcases List.mem_append.mp hc with hc | hc
  · cases negative with
    | false => cases hc
    | true => exact .inr (.inr (List.mem_singleton.mp hc))
  · exact (hNumeral.isDigit_or_eq hPower hc).imp_right .inl

theorem NumberStyle.text_plain_ne_nil {x : Double} (hFinite : x.isFinite = true) :
    plain.text x ≠ [] := by
  obtain ⟨negative, n, hNumeral, -, hText⟩ := exists_numeral_plain hFinite
  obtain ⟨c, rest, hBody, -⟩ := hNumeral.exists_head
  rw [hText, hBody]
  simp

end Diorama
