import Diorama.Json.Value
import Diorama.Proofs.Json.Datum
import Diorama.Proofs.Number.Numerals

/-!
# JSON strings and numbers read back

Whatever follows them in a document, a written string is read character by character
(`string?_stringText`) and a proper numeral with the text that it was written with (`number?_append`).
-/

namespace Diorama.Json

/-! ### Blanks and words -/

theorem word?_append (word rest : List Char) : word? word (word ++ rest) = some rest := by
  rw [word?, if_pos (List.isPrefixOf_iff_prefix.mpr (List.prefix_append _ _)), List.drop_left]

theorem word?_singleton (c : Char) (rest : List Char) : word? [c] (c :: rest) = some rest :=
  word?_append [c] rest

theorem word?_singleton_of_ne {c : Char} {text : List Char} (h : text.head? ≠ some c) :
    word? [c] text = none := by
  refine if_neg fun hPrefix => h ?_
  obtain ⟨rest, rfl⟩ := List.isPrefixOf_iff_prefix.mp hPrefix
  rfl

theorem skipSpace_cons {c : Char} (h : isSpace c = false) (rest : List Char) :
    skipSpace (c :: rest) = c :: rest := List.dropWhile_cons_of_neg (by simp [h])

theorem skipSpace_blank (rest : List Char) : skipSpace (' ' :: rest) = skipSpace rest := rfl

theorem skipSpace_newLine (level : Nat) (rest : List Char) :
    skipSpace (newLine level ++ rest) = skipSpace rest := by
  refine List.dropWhile_append_of_pos fun c hc => ?_
  rcases List.mem_cons.mp hc with rfl | hc
  · rfl
  · rw [List.eq_of_mem_replicate hc]
    rfl

/-! ### Strings -/

theorem hexValue?_digitChar {n : Nat} (hn : n < 16) : hexValue? (Nat.digitChar n) = some n := by
  revert n
  decide

theorem codeUnit?_hexPair {n : Nat} (hn : n < 256) (rest : List Char) :
    codeUnit? ('0' :: '0' :: (hexPair n ++ rest)) = some (n, rest) := by
  have hHigh := hexValue?_digitChar (n := n / 16 % 16) (by omega)
  have hLow := hexValue?_digitChar (n := n % 16) (by omega)
  have hZero : hexValue? '0' = some 0 := rfl
  have hSum : 16 * (16 * (16 * (16 * 0 + 0) + 0) + n / 16 % 16) + n % 16 = n := by omega
  rw [hexPair, List.cons_append, List.cons_append, List.nil_append, codeUnit?]
  simp only [List.foldlM_cons, List.foldlM_nil, hHigh, hLow, hZero, Option.map_some,
    Option.bind_eq_bind, Option.bind_some, Option.pure_def, hSum]

/-- **An escaped character is read back.** -/
theorem character?_escape (c : Char) (rest : List Char) :
    character? (escape c ++ rest) = some (c, rest) := by
  rw [escape]
  split_ifs with hQuote hBackslash hBackspace hFeed hLine hReturn hTab hControl
  · rw [hQuote]
    rfl
  · rw [hBackslash]
    rfl
  · rw [hBackspace]
    rfl
  · rw [hFeed]
    rfl
  · rw [hLine]
    rfl
  · rw [hReturn]
    rfl
  · rw [hTab]
    rfl
  · have hUnit := codeUnit?_hexPair (n := c.toNat) (by omega) rest
    show codedCharacter? ('0' :: '0' :: (hexPair c.toNat ++ rest)) = _
    rw [codedCharacter?, hUnit]
    show (if c.toNat < 0xD800 ∨ 0xDFFF < c.toNat then some (Char.ofNat c.toNat, rest) else _) = _
    rw [if_pos (.inl (by omega)), Char.ofNat_toNat]
  · rw [List.singleton_append, character?, if_neg hBackslash, if_neg (not_or.mpr ⟨hQuote, hControl⟩)]

theorem head?_escape_ne (c : Char) (rest : List Char) :
    (escape c ++ rest).head? ≠ some '"' := by
  rw [escape]
  split_ifs with hQuote
  any_goals simp
  simpa using hQuote

theorem length_escape_pos (c : Char) : 0 < (escape c).length := by
  rw [escape]
  split_ifs <;> simp

/-- **The characters of a string are read back.** -/
theorem characters?_escape {chars : List Char} {bound : Nat}
    (hBound : (chars.flatMap escape).length < bound) (rest : List Char) :
    characters? bound (chars.flatMap escape ++ '"' :: rest) = some (chars, rest) := by
  induction chars generalizing bound with
  | nil =>
    obtain _ | bound := bound
    · omega
    · rfl
  | cons c chars ih =>
    obtain _ | bound := bound
    · omega
    · rw [List.flatMap_cons, List.length_append] at hBound
      have hPos := length_escape_pos c
      rw [List.flatMap_cons, List.append_assoc, characters?, if_neg (head?_escape_ne c _),
        character?_escape, Option.bind_eq_bind, Option.bind_some]
      simp only
      rw [ih (by omega)]
      rfl

theorem string?_stringText {s : String} {bound : Nat} (hBound : (stringText s).length ≤ bound + 1)
    (rest : List Char) : string? bound (stringText s ++ rest) = some (s, rest) := by
  rw [stringText, List.length_cons, List.length_append, List.length_singleton] at hBound
  have hWord : word? ['"'] (stringText s ++ rest) =
      some (s.toList.flatMap escape ++ '"' :: rest) := by
    rw [stringText, List.cons_append, List.append_assoc, word?_singleton]
    rfl
  rw [string?, hWord, Option.bind_eq_bind, Option.bind_some, characters?_escape (by omega)]
  show some (String.ofList s.toList, rest) = _
  rw [String.ofList_toList]

/-! ### Numbers -/

/-- What may follow a value in a document. -/
def EndsValue (rest : List Char) : Prop := ∀ c ∈ rest.head?, c = ',' ∨ c = '\n'

theorem EndsValue.noDigitFirst {rest : List Char} (h : EndsValue rest) : NoDigitFirst rest := by
  intro c hc
  rcases h c hc with rfl | rfl <;> rfl

theorem endsValue_nil : EndsValue [] := nofun

theorem endsValue_newLine (level : Nat) (rest : List Char) : EndsValue (newLine level ++ rest) := by
  intro c hc
  exact .inr (Option.some.inj hc).symm

theorem digits?_append {digits rest : List Char} (hDigits : ∀ c ∈ digits, c.isDigit = true)
    (hNe : digits ≠ []) (hRest : NoDigitFirst rest) :
    digits? (digits ++ rest) = some (digits, rest) := by
  rw [digits?, takeWhile_digits hDigits hRest, dropWhile_digits hDigits hRest, if_neg hNe]

theorem noDigitFirst_append {text rest : List Char} (hText : NoDigitFirst text)
    (hRest : NoDigitFirst rest) : NoDigitFirst (text ++ rest) := by
  cases text with
  | nil => exact hRest
  | cons c text => exact fun d hd => hText d hd

section

variable {n : Numeral} {rest : List Char}

theorem exponent?_append {power : Option Int} (hRest : EndsValue rest) :
    exponent? (Numeral.powerText power ++ rest) = some (Numeral.powerText power, rest) := by
  cases power with
  | none =>
    cases rest with
    | nil => rfl
    | cons c rest =>
      have hLetter : ¬ (c = 'e' ∨ c = 'E') := by
        rcases hRest c rfl with rfl | rfl <;> decide
      exact if_neg hLetter
  | some power =>
    have hDigits := digits?_append (fun c => isDigit_of_mem_toDigits (n := power.natAbs))
      Nat.toDigits_ne_nil hRest.noDigitFirst
    have hSign : exponentSign ((if power < 0 then '-' else '+') ::
        (Nat.toDigits 10 power.natAbs ++ rest)) =
          ([if power < 0 then '-' else '+'], Nat.toDigits 10 power.natAbs ++ rest) := by
      split_ifs <;> rfl
    rw [Numeral.powerText, List.cons_append, List.cons_append, exponent?, if_pos (.inl rfl), hSign]
    simp only
    rw [hDigits]
    rfl

theorem head?_powerText_ne {power : Option Int} (hRest : EndsValue rest) :
    (Numeral.powerText power ++ rest).head? ≠ some '.' := by
  intro h
  cases power with
  | none => exact absurd (hRest '.' h) (by decide)
  | some power => cases h

theorem fraction?_append (hFraction : ∀ c ∈ n.fraction, c.isDigit = true)
    (hRest : EndsValue rest) :
    fraction? (Numeral.fractionText n.fraction ++ (Numeral.powerText n.power ++ rest)) =
      some (Numeral.fractionText n.fraction, Numeral.powerText n.power ++ rest) := by
  by_cases hNil : n.fraction = []
  · rw [Numeral.fractionText, if_pos hNil, List.nil_append, fraction?,
      word?_singleton_of_ne (head?_powerText_ne hRest)]
  · rw [Numeral.fractionText, if_neg hNil, fraction?, List.cons_append, word?_singleton]
    simp only
    rw [digits?_append hFraction hNil (noDigitFirst_append
      (Numeral.noDigitFirst_powerText n.power) hRest.noDigitFirst)]
    rfl

/-- **A proper numeral is read as it is written.** -/
theorem number?_append (hProper : n.IsProper) (hRest : EndsValue rest) (negative : Bool) :
    number? (NumberStyle.signText negative ++ n.text ++ rest) =
      some (NumberStyle.signText negative ++ n.text, rest) := by
  obtain ⟨c, tail, hHead, hc⟩ := hProper.exists_head
  have hSign : (if (NumberStyle.signText negative ++ n.text ++ rest).head? = some '-' then
      (['-'], (NumberStyle.signText negative ++ n.text ++ rest).tail)
      else ([], NumberStyle.signText negative ++ n.text ++ rest)) =
        (NumberStyle.signText negative, n.text ++ rest) := by
    cases negative with
    | true => rfl
    | false =>
      refine if_neg fun h => ?_
      rw [hHead] at h
      obtain rfl := Option.some.inj h
      cases hc
  have hEnd : NoDigitFirst
      (Numeral.fractionText n.fraction ++ (Numeral.powerText n.power ++ rest)) := by
    rw [← List.append_assoc]
    exact noDigitFirst_append (Numeral.noDigitFirst_fractionText _ _) hRest.noDigitFirst
  have hZero : ¬ (n.whole.head? = some '0' ∧ n.whole ≠ ['0']) :=
    fun h => h.2 (hProper.whole_eq h.1)
  rw [number?, hSign]
  simp only
  rw [Numeral.text, List.append_assoc n.whole, List.append_assoc (Numeral.fractionText n.fraction),
    digits?_append hProper.isDigit_whole hProper.whole_ne_nil hEnd, Option.bind_eq_bind,
    Option.bind_some, if_neg hZero, fraction?_append hProper.isDigit_fraction hRest,
    Option.bind_some, exponent?_append hRest]
  rfl

/-- The text of a number starts with a digit or a minus. -/
theorem exists_startsNumber (hProper : n.IsProper) (negative : Bool) :
    ∃ c tail, NumberStyle.signText negative ++ n.text = c :: tail ∧ startsNumber c = true := by
  cases negative with
  | true => exact ⟨'-', n.text, rfl, rfl⟩
  | false =>
    obtain ⟨c, tail, hHead, hc⟩ := hProper.exists_head
    exact ⟨c, tail, hHead, by simp [startsNumber, hc]⟩

end

end Diorama.Json
