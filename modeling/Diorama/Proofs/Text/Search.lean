import Mathlib.Data.List.Infix
import Diorama.Text.Caseless
import Diorama.Text.Search

/-!
# Searching and matching

A search passes over a text in which no match starts (`firstSome?_append`), so what stands before a
marker is found again (`before?_append`). A word matches what is folded to it
(`dropMatch?_eq_some_iff`), and no match reaches over a letter that is not in the rest of the word
(`cons_prefix_of_append_cons`).
-/

namespace Diorama.Text

/-! ### Searching -/

section

variable {α : Type} {f : List Char → Option α} {text rest : List Char}

theorem firstSome?_of_eq_some {a : α} (h : f text = some a) : firstSome? f text = some a := by
  cases text with
  | nil => exact h
  | cons c text => rw [firstSome?, h]

/-- A search passes over a text if no match starts in it. -/
theorem firstSome?_append (h : ∀ t, t ≠ [] → t <:+ text → f (t ++ rest) = none) :
    firstSome? f (text ++ rest) = firstSome? f rest := by
  induction text with
  | nil => rfl
  | cons c text ih =>
    have hHead := h (c :: text) (List.cons_ne_nil c text) List.suffix_rfl
    rw [List.cons_append] at hHead ⊢
    rw [firstSome?, hHead]
    exact ih fun t hNe ht => h t hNe (ht.trans (List.suffix_cons c text))

/-- A search passes over characters with which no match starts. -/
theorem firstSome?_append_of_forall_mem (h : ∀ c ∈ text, ∀ t, f (c :: t) = none) :
    firstSome? f (text ++ rest) = firstSome? f rest := by
  refine firstSome?_append fun t hNe ht => ?_
  obtain ⟨c, t, rfl⟩ := List.exists_cons_of_ne_nil hNe
  exact h c (ht.mem List.mem_cons_self) (t ++ rest)

theorem firstSome?_eq_none (h : ∀ t, t <:+ text → f t = none) : firstSome? f text = none := by
  induction text with
  | nil => exact h [] List.suffix_rfl
  | cons c text ih =>
    rw [firstSome?, h _ List.suffix_rfl]
    exact ih fun t ht => h t (ht.trans (List.suffix_cons c text))

/-- **What stands before the first marker is found.** -/
theorem before?_append {starts : List Char → Bool}
    (hText : ∀ t, t ≠ [] → t <:+ text → starts (t ++ rest) = false) (hRest : starts rest = true) :
    before? starts (text ++ rest) = some text := by
  have hFirst : firstSome? (fun suffix => if starts suffix then some suffix else none)
      (text ++ rest) = some rest := by
    rw [firstSome?_append, firstSome?_of_eq_some (if_pos hRest)]
    intro t hNe ht
    rw [hText t hNe ht]
    rfl
  have hLength : (text ++ rest).length - rest.length = text.length := by
    rw [List.length_append, Nat.add_sub_cancel]
  rw [before?, hFirst, Option.map_some, hLength, List.take_left' rfl]

end

/-! ### Matching -/

theorem dropMatch?_eq_some_iff {fold : Char → Char} {word text rest : List Char} :
    dropMatch? (fun c d => c = fold d) word text = some rest ↔
      ∃ matched, text = matched ++ rest ∧ matched.map fold = word := by
  induction word generalizing text with
  | nil =>
    rw [dropMatch?, Option.some.injEq]
    constructor
    · rintro rfl
      exact ⟨[], rfl, rfl⟩
    · rintro ⟨matched, rfl, hMatched⟩
      rw [List.map_eq_nil_iff.mp hMatched, List.nil_append]
  | cons w word ih =>
    cases text with
    | nil =>
      refine ⟨nofun, ?_⟩
      rintro ⟨matched, hText, hMatched⟩
      rw [(List.append_eq_nil_iff.mp hText.symm).1] at hMatched
      cases hMatched
    | cons c text =>
      have hSplit : (∃ matched, c :: text = matched ++ rest ∧ matched.map fold = w :: word) ↔
          w = fold c ∧ ∃ matched, text = matched ++ rest ∧ matched.map fold = word := by
        constructor
        · rintro ⟨matched, hText, hMatched⟩
          obtain ⟨d, others, rfl, rfl, rfl⟩ := List.map_eq_cons_iff.mp hMatched
          obtain ⟨rfl, rfl⟩ := List.cons_eq_cons.mp hText
          exact ⟨rfl, others, rfl, rfl⟩
        · rintro ⟨rfl, matched, rfl, rfl⟩
          exact ⟨c :: matched, rfl, rfl⟩
      rw [dropMatch?, hSplit]
      by_cases hc : w = fold c
      · rw [if_pos (decide_eq_true hc), ih, and_iff_right hc]
      · rw [if_neg (by simpa using hc)]
        exact iff_of_false nofun fun h => hc h.1

theorem isSome_dropMatch?_iff {fold : Char → Char} {word text : List Char} :
    (dropMatch? (fun c d => c = fold d) word text).isSome = true ↔ word <+: text.map fold := by
  rw [Option.isSome_iff_exists]
  simp only [dropMatch?_eq_some_iff]
  constructor
  · rintro ⟨rest, matched, rfl, rfl⟩
    rw [List.map_append]
    exact List.prefix_append _ _
  · rintro ⟨tail, hTail⟩
    obtain ⟨matched, rest, hText, hMatched, -⟩ := List.map_eq_append_iff.mp hTail.symm
    exact ⟨rest, matched, hText, hMatched⟩

/-- A prefix does not reach over a letter that it does not hold. -/
theorem prefix_of_append_cons {word text rest : List Char} {c : Char} (hc : c ∉ word)
    (h : word <+: text ++ c :: rest) : word <+: text := by
  rcases List.prefix_or_prefix_of_prefix h (List.prefix_append text (c :: rest)) with hWord | ⟨tail, rfl⟩
  · exact hWord
  · rw [List.prefix_append_right_inj] at h
    cases tail with
    | nil => rw [List.append_nil]
    | cons d tail =>
      obtain rfl := (List.cons_prefix_cons.mp h).1
      exact absurd (by simp) hc

/-- The same, if the letter may start the word. -/
theorem cons_prefix_of_append_cons {w c : Char} {word text rest : List Char} (hc : c ∉ word)
    (hText : text ≠ []) (h : w :: word <+: text ++ c :: rest) : w :: word <+: text := by
  cases text with
  | nil => exact absurd rfl hText
  | cons d text =>
    rw [List.cons_append, List.cons_prefix_cons] at h
    exact List.cons_prefix_cons.mpr ⟨h.1, prefix_of_append_cons hc h.2⟩

/-! ### Letter case -/

/-- Two texts are the same up to ASCII case. -/
def SameWord (text word : List Char) : Prop := text.map Char.toLower = word.map Char.toLower

instance (text word : List Char) : Decidable (SameWord text word) :=
  inferInstanceAs (Decidable (_ = _))

theorem dropWord?_eq_some_iff {word text rest : List Char} :
    dropWord? word text = some rest ↔ ∃ matched, text = matched ++ rest ∧ SameWord matched word := by
  have hFold : dropWord? word text =
      dropMatch? (fun c d => c = d.toLower) (word.map Char.toLower) text := by
    rw [dropWord?]
    induction word generalizing text with
    | nil => rfl
    | cons w word ih =>
      cases text with
      | nil => rfl
      | cons c text => rw [dropMatch?, ih, List.map_cons, dropMatch?]; rfl
  rw [hFold, dropMatch?_eq_some_iff]
  rfl

theorem fold_eq_toLower {c : Char} (hs : fold c ≠ 's') (hk : fold c ≠ 'k') :
    fold c = c.toLower := by
  unfold fold at hs hk ⊢
  split_ifs at hs hk ⊢
  · exact absurd rfl hs
  · exact absurd rfl hk
  · rfl

/-- No letter becomes a character in front of the small letters. -/
theorem eq_of_toLower_eq {c d : Char} (hd : d.toNat < 97) (h : c.toLower = d) : c = d := by
  unfold Char.toLower at h
  split at h
  · next hUpper =>
    have hNat : (c.val + 32).toNat = d.toNat := congrArg Char.toNat h
    have hBounds : 65 ≤ c.val.toNat ∧ c.val.toNat ≤ 90 := hUpper
    have h32 : (32 : UInt32).toNat = 32 := rfl
    rw [UInt32.toNat_add] at hNat
    omega
  · exact h

theorem eq_of_fold_eq {c d : Char} (hd : d.toNat < 97) (h : fold c = d) : c = d := by
  have hNe : ∀ letter : Char, 97 ≤ letter.toNat → fold c ≠ letter := by
    rintro letter hLetter rfl
    rw [h] at hLetter
    omega
  have hFold := fold_eq_toLower (hNe 's' (by decide)) (hNe 'k' (by decide))
  exact eq_of_toLower_eq hd (hFold.symm.trans h)

/-- Only `s` and `k` have other letter forms than the ASCII ones. -/
theorem prefix_map_toLower {word text : List Char} (hs : 's' ∉ word) (hk : 'k' ∉ word)
    (h : word <+: text.map fold) : word <+: text.map Char.toLower := by
  obtain ⟨tail, hTail⟩ := h
  obtain ⟨matched, rest, rfl, rfl, -⟩ := List.map_eq_append_iff.mp hTail.symm
  have hMap : matched.map fold = matched.map Char.toLower := by
    refine List.map_congr_left fun c hMem => fold_eq_toLower ?_ ?_
    · intro hc
      exact hs (hc ▸ List.mem_map_of_mem hMem)
    · intro hc
      exact hk (hc ▸ List.mem_map_of_mem hMem)
  rw [hMap, List.map_append]
  exact List.prefix_append _ _

end Diorama.Text
