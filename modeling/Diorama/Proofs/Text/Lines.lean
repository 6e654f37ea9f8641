import Mathlib.Data.List.DropRight
import Diorama.Text.Blank

/-!
# Lines and their blanks

A text splits at its line feeds into lines without line feeds (`not_mem_of_mem_splitOn`), and trimming a
line takes characters away from it but brings no new ones (`mem_of_mem_trim`). A trimmed line is
trimmed (`trim_trim`). Lines that are written one below the other, and words that are written with
blanks in between, are found again (`splitOn_flatMap_concat`, `words_intercalate`).
-/

namespace Diorama.Text

/-! ### Trimming -/

theorem mem_of_mem_trim {c : Char} {text : List Char} (h : c ∈ trim text) : c ∈ text :=
  (List.dropWhile_suffix isBlank).mem ((List.rdropWhile_prefix isBlank _).mem h)

theorem trimStart_trim (text : List Char) : trimStart (trim text) = trim text := by
  have hPrefix : trim text <+: trimStart text := List.rdropWhile_prefix isBlank _
  cases hTrim : trim text with
  | nil => rfl
  | cons c rest =>
    obtain ⟨dropped, hText⟩ := hPrefix
    rw [hTrim, List.cons_append] at hText
    have hHead := List.head?_dropWhile_not isBlank text
    rw [show text.dropWhile isBlank = _ from hText.symm, List.head?_cons] at hHead
    exact List.dropWhile_cons_of_neg (by simpa using hHead)

theorem trim_trim (text : List Char) : trim (trim text) = trim text := by
  rw [trim, trimStart_trim]
  exact List.rdropWhile_idempotent isBlank (trimStart text)

/-- What a text that is trimmed at its end ends with is so, too. -/
theorem trimEnd_of_suffix {text l : List Char} (h : text <:+ l) (hl : trimEnd l = l) :
    trimEnd text = text := by
  refine List.rdropWhile_eq_self_iff.mpr fun hNe => ?_
  have hLast := List.rdropWhile_eq_self_iff.mp hl (fun hNil => hNe (List.suffix_nil.mp (hNil ▸ h)))
  rwa [h.getLast hNe]

theorem trimEnd_eq_self {text : List Char} (h : trim text = text) : trimEnd text = text := by
  rw [← h]
  exact List.rdropWhile_idempotent isBlank (trimStart text)

/-- Trimming an end of a trimmed text gives an end of it. -/
theorem trim_suffix_of_suffix {text l : List Char} (h : text <:+ l) (hl : trim l = l) :
    trim text <:+ l := by
  have hStart : trimStart text <:+ l := (List.dropWhile_suffix isBlank).trans h
  rw [trim, trimEnd_of_suffix hStart (trimEnd_eq_self hl)]
  exact hStart

theorem trim_of_forall {text : List Char} (h : ∀ c ∈ text, isBlank c = false) :
    trim text = text := by
  have hStart : trimStart text = text := by
    cases text with
    | nil => rfl
    | cons c text => exact List.dropWhile_cons_of_neg (by simp [h c List.mem_cons_self])
  rw [trim, hStart]
  refine List.rdropWhile_eq_self_iff.mpr fun hNe => ?_
  rw [h _ (List.getLast_mem hNe)]
  decide

theorem trimEnd_append {blanks : List Char} (hBlank : ∀ c ∈ blanks, isBlank c = true)
    (text : List Char) : trimEnd (text ++ blanks) = trimEnd text := by
  rw [trimEnd, List.reverse_append, List.dropWhile_append_of_pos, trimEnd]
  intro c hc
  exact hBlank c (List.mem_reverse.mp hc)

/-- Blanks at the end of a text are trimmed away with it. -/
theorem trim_append {blanks : List Char} (hBlank : ∀ c ∈ blanks, isBlank c = true)
    (text : List Char) : trim (text ++ blanks) = trim text := by
  rw [trim, trim, trimStart, trimStart, List.dropWhile_append]
  split_ifs with hText
  · rw [List.dropWhile_eq_nil_iff.mpr hBlank, List.isEmpty_iff.mp hText]
  · exact trimEnd_append hBlank _

/-- Nothing is left of blanks, and something of any other text. -/
theorem trim_eq_nil_iff {text : List Char} : trim text = [] ↔ text.all isBlank = true := by
  have hEnd : trim text = [] ↔ ∀ c ∈ trimStart text, isBlank c = true :=
    List.rdropWhile_eq_nil_iff
  rw [hEnd, List.all_eq_true]
  constructor
  · intro h c hc
    rw [← List.takeWhile_append_dropWhile (p := isBlank) (l := text), List.mem_append] at hc
    rcases hc with hc | hc
    · exact List.mem_takeWhile_imp hc
    · exact h c hc
  · intro h c hc
    exact h c ((List.dropWhile_suffix isBlank).mem hc)

/-- What trimming takes away from a line. -/
theorem exists_trim_append (line : List Char) :
    ∃ blanks, line = line.takeWhile isBlank ++ trim line ++ blanks := by
  obtain ⟨blanks, hBlanks⟩ : trim line <+: trimStart line := List.rdropWhile_prefix isBlank _
  refine ⟨blanks, ?_⟩
  rw [List.append_assoc, hBlanks]
  exact (List.takeWhile_append_dropWhile).symm

theorem trim_infix (text : List Char) : trim text <:+: text := by
  obtain ⟨blanks, hSplit⟩ := exists_trim_append text
  exact ⟨_, blanks, hSplit.symm⟩

/-! ### Splitting at line feeds -/

theorem not_mem_of_mem_splitOn {sep : Char} {text line : List Char}
    (h : line ∈ text.splitOn sep) : sep ∉ line := by
  induction text generalizing line with
  | nil =>
    rw [List.splitOn_nil, List.mem_singleton] at h
    rw [h]
    exact List.not_mem_nil
  | cons c text ih =>
    rw [List.splitOn_cons_eq_if_modifyHead] at h
    split_ifs at h with hSep
    · rcases List.mem_cons.mp h with rfl | h
      · exact List.not_mem_nil
      · exact ih h
    · cases hSplit : text.splitOn sep with
      | nil => exact absurd hSplit (List.splitOn_ne_nil _ _)
      | cons first lines =>
        rw [hSplit] at h ih
        rw [List.modifyHead_cons] at h
        rcases List.mem_cons.mp h with rfl | h
        · rw [List.mem_cons, not_or]
          exact ⟨fun hEq => hSep (by simp [hEq]), ih List.mem_cons_self⟩
        · exact ih (List.mem_cons_of_mem _ h)

/-- Lines that are ended each split into themselves, or into more lines if they hold the separator. -/
theorem splitOn_flatMap_ended {α : Type} [DecidableEq α] (sep : α) (lines : List (List α)) :
    (lines.flatMap (· ++ [sep])).splitOn sep = lines.flatMap (·.splitOn sep) ++ [[]] := by
  induction lines with
  | nil => rfl
  | cons line lines ih =>
    rw [List.flatMap_cons, List.append_assoc, List.singleton_append, List.splitOn_append_cons_self,
      ih, List.flatMap_cons, List.append_assoc]

theorem flatMap_splitOn_eq_self {α : Type} [DecidableEq α] {sep : α} {lines : List (List α)}
    (hLines : ∀ line ∈ lines, sep ∉ line) : lines.flatMap (·.splitOn sep) = lines := by
  conv_rhs => rw [← List.flatMap_singleton' lines]
  exact List.flatMap_congr fun line hLine => List.splitOn_eq_singleton (hLines line hLine)

theorem splitOn_flatMap_concat {α : Type} [DecidableEq α] {sep : α} {lines : List (List α)}
    (hLines : ∀ line ∈ lines, sep ∉ line) :
    (lines.flatMap (· ++ [sep])).splitOn sep = lines ++ [[]] := by
  rw [splitOn_flatMap_ended, flatMap_splitOn_eq_self hLines]

/-! ### Words -/

/-- A text that is one word. -/
def IsWord (text : List Char) : Prop := text ≠ [] ∧ ∀ c ∈ text, isBlank c = false

instance : DecidablePred IsWord := fun text =>
  decidable_of_decidable_of_iff (p := text ≠ [] ∧ text.all (!isBlank ·) = true)
    (by simp [IsWord])

theorem isWord_singleton {c : Char} (h : isBlank c = false) : IsWord [c] := by
  refine ⟨List.cons_ne_nil c [], fun c' hc => ?_⟩
  rw [List.mem_singleton.mp hc]
  exact h

theorem words_of_isWord {text : List Char} (h : IsWord text) : words text = [text] := by
  rw [words, List.splitOnP_eq_singleton h.2, List.filter_singleton]
  simp [h.1]

theorem words_append_blank {word : List Char} (h : IsWord word) {b : Char}
    (hBlank : isBlank b = true) (rest : List Char) :
    words (word ++ b :: rest) = word :: words rest := by
  rw [words, List.splitOnP_append_cons_of_forall_mem h.2 b hBlank, List.filter_cons_of_pos]
  · rfl
  · simp [h.1]

/-- **Words with one blank between any two are read as these words.** -/
theorem words_intercalate {texts : List (List Char)} (h : ∀ text ∈ texts, IsWord text) :
    words ([' '].intercalate texts) = texts := by
  induction texts with
  | nil => rfl
  | cons word texts ih =>
    have hWord := h word List.mem_cons_self
    have hRest := ih fun text ht => h text (List.mem_cons_of_mem _ ht)
    cases texts with
    | nil =>
      rw [List.intercalate_singleton]
      exact words_of_isWord hWord
    | cons next texts =>
      rw [List.intercalate_cons_cons, List.append_assoc, List.singleton_append,
        words_append_blank hWord (by decide), hRest]

theorem mem_intercalate {sep c : Char} {texts : List (List Char)}
    (h : c ∈ [sep].intercalate texts) : c = sep ∨ ∃ text ∈ texts, c ∈ text := by
  induction texts with
  | nil => cases h
  | cons text texts ih =>
    cases texts with
    | nil =>
      rw [List.intercalate_singleton] at h
      exact .inr ⟨text, List.mem_cons_self, h⟩
    | cons next texts =>
      rw [List.intercalate_cons_cons, List.append_assoc, List.mem_append, List.singleton_append,
        List.mem_cons] at h
      rcases h with h | h | h
      · exact .inr ⟨text, List.mem_cons_self, h⟩
      · exact .inl h
      · obtain hSep | ⟨text', hText', hc⟩ := ih h
        · exact .inl hSep
        · exact .inr ⟨text', List.mem_cons_of_mem _ hText', hc⟩

theorem infix_intercalate {sep : Char} {text : List Char} {texts : List (List Char)}
    (h : text ∈ texts) : text <:+: [sep].intercalate texts := by
  induction texts with
  | nil => cases h
  | cons first texts ih =>
    cases texts with
    | nil =>
      have hEq : [sep].intercalate [first] = text := by
        rw [List.mem_singleton.mp h, List.intercalate_singleton]
      exact hEq ▸ List.infix_rfl
    | cons next texts =>
      rw [List.intercalate_cons_cons, List.append_assoc]
      rcases List.mem_cons.mp h with rfl | h
      · exact (List.prefix_append _ _).isInfix
      · exact (ih h).trans ((List.suffix_append _ _).trans (List.suffix_append _ _)).isInfix

end Diorama.Text
