import Mathlib.Data.Nat.Find
import Diorama.Proofs.Text.Search

/-!
# First occurrences

A kind of texts is a property of texts, such as to be a closing tag. `IsFirst` tells the first part of a
text that is of a kind, and `Takes` what stands between the first opener and the first closer behind
it.

For both it is decisive that parts that start later do not end earlier (`EndsInOrder`). This is so if
the parts of a kind are of one length (`endsInOrder_of_length`), or run up to the next character of some
sort (`endsInOrder_of_mark`). Then one part at most starts at a place (`EndsInOrder.eq_of_append_eq`), and a
first part stays the first one if the text goes on (`IsFirst.append`).
-/

namespace Diorama.Text

variable {kind : List Char → Prop} {text before part after : List Char}

/-- A part of this kind stands at the start of a text. -/
def Starts (kind : List Char → Prop) (text : List Char) : Prop :=
  ∃ part rest, text = part ++ rest ∧ kind part

/-- A text has a part of this kind. -/
def Occurs (kind : List Char → Prop) (text : List Char) : Prop := ∃ part, kind part ∧ part <:+: text

/-- The first part of this kind, between what stands before and behind it. -/
structure IsFirst (kind : List Char → Prop) (text before part after : List Char) : Prop where
  split : text = before ++ part ++ after
  isKind : kind part
  first : ∀ before' part' after', text = before' ++ part' ++ after' → kind part' →
    before.length ≤ before'.length

/-- What is taken from a text: what stands between the first opener and the first closer behind it. -/
inductive Takes (opener closer : List Char → Prop) (text : List Char) : Option (List Char) → Prop
  | unopened (hOpener : ¬ Occurs opener text) : Takes opener closer text none
  | unclosed {before start rest : List Char} (hOpener : IsFirst opener text before start rest)
      (hCloser : ¬ Occurs closer rest) : Takes opener closer text none
  | closed {before start rest body stop after : List Char}
      (hOpener : IsFirst opener text before start rest)
      (hCloser : IsFirst closer rest body stop after) : Takes opener closer text (some body)

/-! ### Occurrences -/

theorem occurs_iff : Occurs kind text ↔ ∃ t, t <:+ text ∧ Starts kind t := by
  constructor
  · rintro ⟨part, hPart, before, after, rfl⟩
    exact ⟨part ++ after, ⟨before, (List.append_assoc _ _ _).symm⟩, part, after, rfl, hPart⟩
  · rintro ⟨_, ⟨before, rfl⟩, part, after, rfl, hPart⟩
    exact ⟨part, hPart, before, after, List.append_assoc _ _ _⟩

theorem IsFirst.occurs (h : IsFirst kind text before part after) : Occurs kind text :=
  ⟨part, h.isKind, before, after, h.split.symm⟩

theorem Occurs.mono {rest : List Char} (h : Occurs kind rest) (hRest : rest <:+: text) :
    Occurs kind text := by
  obtain ⟨part, hPart, hInfix⟩ := h
  exact ⟨part, hPart, hInfix.trans hRest⟩

/-- What occurs has a first occurrence. -/
theorem Occurs.exists_isFirst (h : Occurs kind text) :
    ∃ before part after, IsFirst kind text before part after := by
  classical
  have hSome : ∃ n before part after, before.length = n ∧ text = before ++ part ++ after ∧
      kind part := by
    obtain ⟨part, hPart, before, after, hSplit⟩ := h
    exact ⟨_, before, part, after, rfl, hSplit.symm, hPart⟩
  obtain ⟨before, part, after, hLength, hSplit, hPart⟩ := Nat.find_spec hSome
  refine ⟨before, part, after, hSplit, hPart, ?_⟩
  intro before' part' after' hSplit' hPart'
  rw [hLength]
  exact Nat.find_min' hSome ⟨before', part', after', rfl, hSplit', hPart'⟩

/-- In front of the first part no other one starts. -/
theorem IsFirst.not_starts (h : IsFirst kind text before part after) {t : List Char} (hNe : t ≠ [])
    (ht : t <:+ before) : ¬ Starts kind (t ++ (part ++ after)) := by
  rintro ⟨part', rest, hSplit, hPart'⟩
  obtain ⟨front, rfl⟩ := ht
  have hLe := h.first front part' rest (by rw [h.split]; simp [hSplit]) hPart'
  rw [List.length_append] at hLe
  exact hNe (List.length_eq_zero_iff.mp (by omega))

/-- In front of the first part there is no other one. -/
theorem IsFirst.not_infix (h : IsFirst kind text before part after) {part' : List Char}
    (hPart' : kind part') (hNe : part' ≠ []) : ¬ part' <:+: before := by
  rintro ⟨front, rest, hBefore⟩
  have hLe := h.first front part' (rest ++ (part ++ after)) (by rw [h.split, ← hBefore]; simp) hPart'
  rw [← hBefore, List.length_append, List.length_append] at hLe
  exact hNe (List.length_eq_zero_iff.mp (by omega))

theorem exists_takes (opener closer : List Char → Prop) (text : List Char) :
    ∃ taken, Takes opener closer text taken := by
  by_cases hOpener : Occurs opener text
  · obtain ⟨_, _, rest, hFirst⟩ := hOpener.exists_isFirst
    by_cases hCloser : Occurs closer rest
    · obtain ⟨_, _, _, hFirst'⟩ := hCloser.exists_isFirst
      exact ⟨_, .closed hFirst hFirst'⟩
    · exact ⟨_, .unclosed hFirst hCloser⟩
  · exact ⟨_, .unopened hOpener⟩

/-- What occurs in a concatenation, but cannot start in its first text, occurs in the second one. -/
theorem Occurs.of_append {front : List Char} (h : Occurs kind (front ++ text))
    (hHead : ∀ part, kind part → ∃ c rest, part = c :: rest ∧ c ∉ front) : Occurs kind text := by
  obtain ⟨part, hPart, before, after, hSplit⟩ := h
  obtain ⟨c, rest, rfl, hc⟩ := hHead part hPart
  rw [List.append_assoc] at hSplit
  rcases List.append_eq_append_iff.mp hSplit with ⟨gap, rfl, hGap⟩ | ⟨gap, rfl, hGap⟩
  · cases gap with
    | nil => exact ⟨c :: rest, hPart, [], after, hGap⟩
    | cons d gap =>
      obtain ⟨rfl, -⟩ := List.cons_eq_cons.mp hGap
      exact absurd (List.mem_append_right _ List.mem_cons_self) hc
  · exact ⟨c :: rest, hPart, gap, after, by rw [List.append_assoc, hGap]⟩

/-! ### Parts that end in order -/

/-- Parts that start later do not end earlier. -/
def EndsInOrder (kind : List Char → Prop) : Prop :=
  ∀ before part after before' part' after' : List Char,
    before ++ part ++ after = before' ++ part' ++ after' → kind part → kind part' →
      before.length ≤ before'.length → (before ++ part).length ≤ (before' ++ part').length

theorem endsInOrder_of_length {n : Nat} (h : ∀ part, kind part → part.length = n) :
    EndsInOrder kind := by
  intro before part after before' part' after' _ hPart hPart' hLe
  rw [List.length_append, List.length_append, h part hPart, h part' hPart']
  omega

theorem endsInOrder_of_mark (mark : Char)
    (h : ∀ part, kind part → ∃ front, part = front ++ [mark] ∧ mark ∉ front) :
    EndsInOrder kind := by
  intro before part after before' part' after' hEq hPart hPart' hLe
  obtain ⟨front, rfl, hFront⟩ := h part hPart
  obtain ⟨front', rfl, -⟩ := h part' hPart'
  by_contra hLess
  -- Otherwise the mark at the end of the second part lies in front of the end of the first one.
  have hPrefix : before' ++ (front' ++ [mark]) <+: before ++ front := by
    refine List.prefix_of_prefix_length_le ⟨after', hEq.symm⟩ ⟨mark :: after, ?_⟩ ?_
    · simp
    · simp only [List.length_append, List.length_singleton] at hLess ⊢
      omega
  obtain ⟨gap, rfl⟩ : before <+: before' :=
    List.prefix_of_prefix_length_le (List.prefix_append before front)
      ((List.prefix_append _ _).trans hPrefix) hLe
  rw [List.append_assoc, List.prefix_append_right_inj] at hPrefix
  exact hFront (hPrefix.mem (by simp))

/-- Only one part starts at a place. -/
theorem EndsInOrder.eq_of_append_eq (hOrder : EndsInOrder kind) {part' after' : List Char}
    (hEq : part ++ after = part' ++ after') (hPart : kind part) (hPart' : kind part') :
    part = part' ∧ after = after' := by
  have hLe := hOrder [] part after [] part' after' hEq hPart hPart' le_rfl
  have hGe := hOrder [] part' after' [] part after hEq.symm hPart' hPart le_rfl
  exact List.append_inj hEq (Nat.le_antisymm hLe hGe)

/-- Behind the first part is all that stands behind a later one. -/
theorem IsFirst.suffix (hOrder : EndsInOrder kind) (h : IsFirst kind text before part after)
    {before' part' after' : List Char} (hSplit : text = before' ++ part' ++ after')
    (hPart' : kind part') : after' <:+ after := by
  have hEq := h.split.symm.trans hSplit
  have hLe := hOrder _ _ _ _ _ _ hEq h.isKind hPart' (h.first _ _ _ hSplit hPart')
  refine List.suffix_of_suffix_length_le ⟨_, hSplit.symm⟩ ⟨_, h.split.symm⟩ ?_
  have hLength : (before ++ part).length + after.length = (before' ++ part').length + after'.length := by
    rw [← List.length_append, ← List.length_append, hEq]
  omega

/-- **The first part stays the first one if the text goes on.** -/
theorem IsFirst.append (hOrder : EndsInOrder kind) (h : IsFirst kind text before part after)
    (more : List Char) : IsFirst kind (text ++ more) before part (after ++ more) := by
  have hSplit : text ++ more = before ++ part ++ (after ++ more) := by
    rw [h.split, List.append_assoc (before ++ part)]
  refine ⟨hSplit, h.isKind, ?_⟩
  intro before' part' after' hSplit' hPart'
  by_contra hLess
  -- An earlier part would end in time, and so stand in the text itself.
  have hLe := hOrder _ _ _ _ _ _ (hSplit'.symm.trans hSplit) hPart' h.isKind (by omega)
  have hLength : (before ++ part).length ≤ text.length := by
    rw [h.split]
    exact (List.prefix_append _ _).length_le
  obtain ⟨rest, hRest⟩ : before' ++ part' <+: text :=
    List.prefix_of_prefix_length_le ⟨after', hSplit'.symm⟩ (List.prefix_append text more)
      (hLe.trans hLength)
  exact hLess (h.first before' part' rest hRest.symm hPart')

/-- What was taken is taken from a text that goes on. -/
theorem Takes.append {opener closer : List Char → Prop} (hOpener : EndsInOrder opener)
    (hCloser : EndsInOrder closer) {body : List Char} (h : Takes opener closer text (some body))
    (more : List Char) : Takes opener closer (text ++ more) (some body) := by
  cases h with
  | closed hStart hStop => exact .closed (hStart.append hOpener more) (hStop.append hCloser more)

/-! ### Searching for parts -/

/-- What `read?` leaves of a text is what stands behind a part of this kind. -/
def Reads (read? : List Char → Option (List Char)) (kind : List Char → Prop) : Prop :=
  ∀ text rest, read? text = some rest ↔ ∃ part, text = part ++ rest ∧ kind part

/-- `starts` tells whether a part of this kind stands at the start of a text. -/
def Detects (starts : List Char → Bool) (kind : List Char → Prop) : Prop :=
  ∀ text, starts text = true ↔ Starts kind text

section

variable {α : Type} {f : List Char → Option α} (hNone : ∀ t, ¬ Starts kind t → f t = none)

include hNone

/-- A search that fails where no part starts passes over what stands before the first part. -/
theorem IsFirst.firstSome?_eq (h : IsFirst kind text before part after) :
    firstSome? f text = firstSome? f (part ++ after) := by
  rw [h.split, List.append_assoc]
  exact firstSome?_append fun t hNe ht => hNone _ (h.not_starts hNe ht)

theorem firstSome?_of_not_occurs (h : ¬ Occurs kind text) : firstSome? f text = none := by
  refine firstSome?_eq_none fun t ht => hNone t fun hStarts => h ?_
  exact occurs_iff.mpr ⟨t, ht, hStarts⟩

end

/-- A search finds something exactly if a part occurs, if it finds something where a part starts. -/
theorem isSome_firstSome?_iff {α : Type} {f : List Char → Option α}
    (h : ∀ t, (f t).isSome = true ↔ Starts kind t) :
    (firstSome? f text).isSome = true ↔ Occurs kind text := by
  have hNone : ∀ t, ¬ Starts kind t → f t = none := by
    intro t ht
    rwa [← h t, Bool.not_eq_true, Option.isSome_eq_false_iff, Option.isNone_iff_eq_none] at ht
  constructor
  · intro hSome
    by_contra hOccurs
    rw [firstSome?_of_not_occurs hNone hOccurs] at hSome
    cases hSome
  · intro hOccurs
    obtain ⟨before, part, after, hFirst⟩ := hOccurs.exists_isFirst
    obtain ⟨a, ha⟩ := Option.isSome_iff_exists.mp ((h _).mpr ⟨part, after, rfl, hFirst.isKind⟩)
    rw [hFirst.firstSome?_eq hNone, firstSome?_of_eq_some ha]
    rfl

theorem Reads.eq_none {read? : List Char → Option (List Char)} (hRead : Reads read? kind)
    (h : ¬ Starts kind text) : read? text = none := by
  by_contra hSome
  obtain ⟨rest, hRest⟩ := Option.ne_none_iff_exists'.mp hSome
  obtain ⟨part, hSplit, hPart⟩ := (hRead text rest).mp hRest
  exact h ⟨part, rest, hSplit, hPart⟩

theorem Reads.firstSome?_eq {read? : List Char → Option (List Char)} (hRead : Reads read? kind)
    (h : IsFirst kind text before part after) : firstSome? read? text = some after := by
  rw [h.firstSome?_eq fun _ => hRead.eq_none]
  exact firstSome?_of_eq_some ((hRead _ _).mpr ⟨part, rfl, h.isKind⟩)

theorem Detects.before?_eq {starts : List Char → Bool} (hStarts : Detects starts kind)
    (h : IsFirst kind text before part after) : before? starts text = some before := by
  have hSplit := h.split
  rw [List.append_assoc] at hSplit
  rw [hSplit]
  refine before?_append ?_ ((hStarts _).mpr ⟨part, after, rfl, h.isKind⟩)
  intro t hNe ht
  by_contra hTrue
  exact h.not_starts hNe ht ((hStarts _).mp ((Bool.not_eq_false _).mp hTrue))

theorem Detects.before?_eq_none {starts : List Char → Bool} (hStarts : Detects starts kind)
    (h : ¬ Occurs kind text) : before? starts text = none := by
  have hNone : ∀ t, ¬ Starts kind t → (if starts t then some t else none) = none := by
    intro t ht
    exact if_neg (mt (hStarts t).mp ht)
  rw [before?, firstSome?_of_not_occurs hNone h, Option.map_none]

end Diorama.Text
