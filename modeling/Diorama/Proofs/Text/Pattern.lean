import Diorama.Proofs.Text.Occurrence

/-!
# Patterns

Regular expressions as far as the search for diagrams needs them, with the order in which a search that
goes back to its last choice tries the ways of a match: the first alternative before the second one, as
many repetitions as possible if the pattern is greedy and as few as possible otherwise. Of all matches
the one that starts first counts, and of these the one that is tried first (`capture?`).

The ways to match a text are the splits that the language of the pattern allows
(`exists_mem_ways_iff`). So a pattern that looks for a body between an opener and a closer captures what
`Takes` takes by the two languages, if openers end in order (`capture?_block`).
-/

namespace Diorama.Text

/-- Regular expressions with one class of characters below each repetition. -/
inductive Pattern where
  | empty
  | one (p : Char → Bool)
  | many (p : Char → Bool) (greedy : Bool)
  | either (a b : Pattern)
  | andThen (a b : Pattern)
  | group (a : Pattern)

/-- One way to match a text: what the group has captured, if it was passed, and what is left. -/
structure Way where
  captured : Option (List Char)
  rest : List Char

namespace Pattern

/-- What is left of a text by a repetition, in the order in which it is tried. -/
def rests (p : Char → Bool) (greedy : Bool) : List Char → List (List Char)
  | [] => [[]]
  | c :: text =>
    if p c then
      if greedy then rests p greedy text ++ [c :: text] else (c :: text) :: rests p greedy text
    else [c :: text]

/-- The ways to match the start of a text, in the order in which they are tried. -/
def ways : Pattern → List Char → List Way
  | .empty, text => [⟨none, text⟩]
  | .one _, [] => []
  | .one p, c :: text => if p c then [⟨none, text⟩] else []
  | .many p greedy, text => (rests p greedy text).map fun rest => ⟨none, rest⟩
  | .either a b, text => a.ways text ++ b.ways text
  | .andThen a b, text => (a.ways text).flatMap fun w =>
    (b.ways w.rest).map fun v => ⟨v.captured <|> w.captured, v.rest⟩
  | .group a, text => (a.ways text).map fun w =>
    ⟨some (text.take (text.length - w.rest.length)), w.rest⟩

/-- What the group captures in the match that starts first and is tried first. -/
def capture? (p : Pattern) (text : List Char) : Option (List Char) :=
  (firstSome? (fun t => (p.ways t).head?) text).bind Way.captured

/-- What may be missing. -/
def optional (a : Pattern) : Pattern := .either a .empty

/-- A word, its letters compared by `same`. -/
def word (same : Char → Char → Bool) (letters : List Char) : Pattern :=
  letters.foldr (fun c rest => .andThen (.one (same c)) rest) .empty

/-- An opener, a body that is as short as possible, and a closer. -/
def block (opener closer : Pattern) : Pattern :=
  .andThen opener (.andThen (.group (.many (fun _ => true) false)) closer)

/-! ### Languages -/

/-- The texts that a pattern matches as a whole. -/
def Denotes : Pattern → List Char → Prop
  | .empty, text => text = []
  | .one p, text => ∃ c, text = [c] ∧ p c = true
  | .many p _, text => ∀ c ∈ text, p c = true
  | .either a b, text => a.Denotes text ∨ b.Denotes text
  | .andThen a b, text => ∃ first second, text = first ++ second ∧ a.Denotes first ∧ b.Denotes second
  | .group a, text => a.Denotes text

/-- There is no group in a pattern. -/
def IsPlain : Pattern → Prop
  | .empty | .one _ | .many _ _ => True
  | .either a b | .andThen a b => a.IsPlain ∧ b.IsPlain
  | .group _ => False

theorem mem_rests_iff {p : Char → Bool} {greedy : Bool} {text rest : List Char} :
    rest ∈ rests p greedy text ↔ ∃ run, text = run ++ rest ∧ ∀ c ∈ run, p c = true := by
  induction text with
  | nil =>
    rw [rests, List.mem_singleton]
    constructor
    · rintro rfl
      exact ⟨[], rfl, nofun⟩
    · rintro ⟨run, hSplit, -⟩
      exact (List.append_eq_nil_iff.mp hSplit.symm).2
  | cons c text ih =>
    have hMem : rest ∈ rests p greedy (c :: text) ↔
        rest = c :: text ∨ p c = true ∧ rest ∈ rests p greedy text := by
      rw [rests]
      by_cases hc : p c = true
      · cases greedy <;> simp [hc, or_comm]
      · simp [hc]
    rw [hMem, ih]
    constructor
    · rintro (rfl | ⟨hc, run, rfl, hRun⟩)
      · exact ⟨[], rfl, nofun⟩
      · exact ⟨c :: run, rfl, List.forall_mem_cons.mpr ⟨hc, hRun⟩⟩
    · rintro ⟨run, hSplit, hRun⟩
      cases run with
      | nil => exact .inl hSplit.symm
      | cons d run =>
        obtain ⟨rfl, hRest⟩ := List.cons_eq_cons.mp hSplit
        obtain ⟨hc, hRun⟩ := List.forall_mem_cons.mp hRun
        exact .inr ⟨hc, run, hRest, hRun⟩

/-- **The ways to match a text are the splits that the language allows.** -/
theorem exists_mem_ways_iff {p : Pattern} {text rest : List Char} :
    (∃ w ∈ p.ways text, w.rest = rest) ↔ ∃ part, text = part ++ rest ∧ p.Denotes part := by
  induction p generalizing text rest with
  | empty =>
    constructor
    · rintro ⟨w, hw, rfl⟩
      obtain rfl := List.mem_singleton.mp hw
      exact ⟨[], rfl, rfl⟩
    · rintro ⟨part, rfl, rfl⟩
      exact ⟨_, List.mem_singleton_self _, rfl⟩
  | one p =>
    cases text with
    | nil =>
      constructor
      · rintro ⟨w, hw, -⟩
        cases hw
      · rintro ⟨part, hSplit, c, rfl, -⟩
        cases hSplit
    | cons c text =>
      have hMem (w : Way) : w ∈ (Pattern.one p).ways (c :: text) ↔ p c = true ∧ w = ⟨none, text⟩ := by
        rw [ways]
        split_ifs with hc
        · simp [hc]
        · simp [hc]
      simp only [hMem]
      constructor
      · rintro ⟨w, ⟨hc, rfl⟩, rfl⟩
        exact ⟨[c], rfl, c, rfl, hc⟩
      · rintro ⟨part, hSplit, d, rfl, hd⟩
        obtain ⟨rfl, rfl⟩ := List.cons_eq_cons.mp hSplit
        exact ⟨_, ⟨hd, rfl⟩, rfl⟩
  | many p greedy =>
    simp only [ways, List.mem_map, exists_exists_and_eq_and, exists_eq_right]
    exact mem_rests_iff
  | either a b iha ihb =>
    simp only [ways, List.mem_append, or_and_right, exists_or, iha, ihb, Denotes, and_or_left]
  | andThen a b iha ihb =>
    constructor
    · rintro ⟨w, hw, rfl⟩
      obtain ⟨u, hu, hw⟩ := List.mem_flatMap.mp hw
      obtain ⟨v, hv, rfl⟩ := List.mem_map.mp hw
      obtain ⟨first, hFirst, ha⟩ := iha.mp ⟨u, hu, rfl⟩
      obtain ⟨second, hSecond, hb⟩ := ihb.mp ⟨v, hv, rfl⟩
      refine ⟨first ++ second, ?_, first, second, rfl, ha, hb⟩
      rw [hFirst, hSecond, List.append_assoc]
    · rintro ⟨part, rfl, first, second, rfl, ha, hb⟩
      obtain ⟨u, hu, hMiddle⟩ := iha.mpr ⟨first, List.append_assoc first second rest, ha⟩
      obtain ⟨v, hv, hRest⟩ := ihb.mpr ⟨second, hMiddle, hb⟩
      exact ⟨_, List.mem_flatMap.mpr ⟨u, hu, List.mem_map_of_mem hv⟩, hRest⟩
  | group a ih =>
    constructor
    · rintro ⟨w, hw, rfl⟩
      obtain ⟨u, hu, rfl⟩ := List.mem_map.mp hw
      exact ih.mp ⟨u, hu, rfl⟩
    · intro h
      obtain ⟨u, hu, rfl⟩ := ih.mpr h
      exact ⟨_, List.mem_map_of_mem hu, rfl⟩

/-- Nothing is captured without a group. -/
theorem captured_of_mem_ways {p : Pattern} (hPlain : p.IsPlain) {text : List Char} {w : Way}
    (hw : w ∈ p.ways text) : w.captured = none := by
  induction p generalizing text w with
  | empty =>
    obtain rfl := List.mem_singleton.mp hw
    rfl
  | one p =>
    cases text with
    | nil => cases hw
    | cons c text =>
      rw [ways] at hw
      split_ifs at hw
      · obtain rfl := List.mem_singleton.mp hw
        rfl
      · cases hw
  | many p greedy =>
    obtain ⟨rest, -, rfl⟩ := List.mem_map.mp hw
    rfl
  | either a b iha ihb =>
    rcases List.mem_append.mp hw with hw | hw
    · exact iha hPlain.1 hw
    · exact ihb hPlain.2 hw
  | andThen a b iha ihb =>
    obtain ⟨u, hu, hw⟩ := List.mem_flatMap.mp hw
    obtain ⟨v, hv, rfl⟩ := List.mem_map.mp hw
    rw [iha hPlain.1 hu, ihb hPlain.2 hv]
    rfl
  | group a => exact hPlain.elim

theorem ways_eq_nil {p : Pattern} {text : List Char} (h : ¬ Starts p.Denotes text) :
    p.ways text = [] := by
  refine List.eq_nil_iff_forall_not_mem.mpr fun w hw => h ?_
  obtain ⟨part, hSplit, hPart⟩ := exists_mem_ways_iff.mp ⟨w, hw, rfl⟩
  exact ⟨part, w.rest, hSplit, hPart⟩

theorem exists_mem_ways {p : Pattern} {part : List Char} (hPart : p.Denotes part)
    (rest : List Char) : ∃ w ∈ p.ways (part ++ rest), w.rest = rest :=
  exists_mem_ways_iff.mpr ⟨part, rfl, hPart⟩

/-! ### Blocks -/

/-- A search through a repetition that is as short as possible goes through the text. -/
theorem findSome?_rests {α : Type} (f : List Char → Option α) (text : List Char) :
    (rests (fun _ => true) false text).findSome? f = firstSome? f text := by
  induction text with
  | nil =>
    rw [rests, firstSome?, List.findSome?_cons, List.findSome?_nil]
    cases f [] <;> rfl
  | cons c text ih =>
    rw [rests, if_pos rfl, if_neg (by decide), List.findSome?_cons, firstSome?, ih]
    cases f (c :: text) <;> rfl

theorem findSome?_of_forall_eq {α β : Type} {f : α → Option β} {l : List α} {a : α}
    (h : ∀ b ∈ l, b = a) (hSome : l ≠ []) : l.findSome? f = f a := by
  induction l with
  | nil => exact absurd rfl hSome
  | cons b l ih =>
    obtain ⟨rfl, hRest⟩ := List.forall_mem_cons.mp h
    rw [List.findSome?_cons]
    cases hf : f b with
    | some c => rfl
    | none =>
      refine List.findSome?_eq_none_iff.mpr fun b' hb' => ?_
      rw [hRest b' hb', hf]

/-- The body behind an opener, by the way that is tried first. -/
def bodyWay? (closer : Pattern) (text : List Char) : Option Way :=
  ((Pattern.andThen (.group (.many (fun _ => true) false)) closer).ways text).head?

section

variable {opener closer : Pattern} {text before part after : List Char}

theorem bodyWay?_eq : bodyWay? closer text = firstSome? (fun t =>
    (closer.ways t).head?.map fun v =>
      ⟨v.captured <|> some (text.take (text.length - t.length)), v.rest⟩) text := by
  rw [bodyWay?, ways, List.head?_flatMap, ways, List.findSome?_map, ways, List.findSome?_map,
    findSome?_rests]
  refine congrArg (firstSome? · text) (funext fun t => ?_)
  simp only [Function.comp_apply, List.head?_map]

theorem bodyWay?_eq_none (h : ¬ Occurs closer.Denotes text) : bodyWay? closer text = none := by
  rw [bodyWay?_eq]
  refine firstSome?_of_not_occurs (fun t ht => ?_) h
  rw [ways_eq_nil ht]
  rfl

/-- The way that is tried first captures what stands before the first closer. -/
theorem exists_bodyWay? (hPlain : closer.IsPlain)
    (h : IsFirst closer.Denotes text before part after) :
    ∃ w, bodyWay? closer text = some w ∧ w.captured = some before := by
  obtain ⟨v, hv⟩ : ∃ v, (closer.ways (part ++ after)).head? = some v := by
    obtain ⟨w, hw, -⟩ := exists_mem_ways h.isKind after
    exact ⟨_, List.head?_eq_some_head (List.ne_nil_of_mem hw)⟩
  have hNone : v.captured = none := captured_of_mem_ways hPlain (List.mem_of_mem_head? hv)
  have hTake : text.take (text.length - (part ++ after).length) = before := by
    have hLength : text.length - (part ++ after).length = before.length := by
      rw [h.split, List.append_assoc, List.length_append, Nat.add_sub_cancel]
    rw [hLength, h.split, List.append_assoc, List.take_left' rfl]
  refine ⟨⟨some before, v.rest⟩, ?_, rfl⟩
  rw [bodyWay?_eq, h.firstSome?_eq]
  · rw [firstSome?_of_eq_some]
    rw [hv, Option.map_some, hNone, hTake]
    rfl
  · intro t ht
    rw [ways_eq_nil ht]
    rfl

theorem ways_block_eq_nil (h : ¬ Starts opener.Denotes text) :
    (block opener closer).ways text = [] := by
  rw [block, ways, ways_eq_nil h, List.flatMap_nil]

/-- Whatever way the opener is matched, the body starts behind the same part. -/
theorem head?_ways_block (hOrder : EndsInOrder opener.Denotes) (hPlain : opener.IsPlain)
    (hPart : opener.Denotes part) : ((block opener closer).ways (part ++ after)).head? =
      bodyWay? closer after := by
  have hWays : ∀ w ∈ opener.ways (part ++ after), w = ⟨none, after⟩ := by
    intro w hw
    obtain ⟨part', hSplit, hPart'⟩ := exists_mem_ways_iff.mp ⟨w, hw, rfl⟩
    obtain ⟨-, hAfter⟩ := hOrder.eq_of_append_eq hSplit hPart hPart'
    rw [hAfter, ← captured_of_mem_ways hPlain hw]
  have hSome : opener.ways (part ++ after) ≠ [] := by
    obtain ⟨w, hw, -⟩ := exists_mem_ways hPart after
    exact List.ne_nil_of_mem hw
  rw [block, ways, List.head?_flatMap, findSome?_of_forall_eq hWays hSome, bodyWay?]
  simp

/-- **A pattern captures what is taken by the languages of its opener and its closer.** Going back to
another way through an opener, or on to a later one, finds nothing else. -/
theorem capture?_block (hOrder : EndsInOrder opener.Denotes) (hOpener : opener.IsPlain)
    (hCloser : closer.IsPlain) {taken : Option (List Char)}
    (h : Takes opener.Denotes closer.Denotes text taken) :
    (block opener closer).capture? text = taken := by
  have hNone : ∀ t, ¬ Starts opener.Denotes t → ((block opener closer).ways t).head? = none := by
    intro t ht
    rw [ways_block_eq_nil ht, List.head?_nil]
  rw [capture?]
  cases h with
  | unopened h => rw [firstSome?_of_not_occurs hNone h, Option.bind_none]
  | @unclosed before start rest hFirst h =>
    rw [firstSome?_eq_none, Option.bind_none]
    intro t ht
    by_cases hStarts : Starts opener.Denotes t
    · obtain ⟨part, rest', rfl, hPart⟩ := hStarts
      obtain ⟨front, hSplit⟩ := ht
      -- What stands behind a later opener stands behind the first one, too.
      have hSuffix := hFirst.suffix hOrder (hSplit.symm.trans (List.append_assoc _ _ _).symm) hPart
      rw [head?_ways_block hOrder hOpener hPart]
      exact bodyWay?_eq_none fun hOccurs => h (hOccurs.mono hSuffix.isInfix)
    · exact hNone t hStarts
  | @closed before start rest body stop after hFirst hStop =>
    obtain ⟨w, hw, hCaptured⟩ := exists_bodyWay? hCloser hStop
    have hHead : ((block opener closer).ways (start ++ rest)).head? = some w := by
      rw [head?_ways_block hOrder hOpener hFirst.isKind, hw]
    rw [hFirst.firstSome?_eq hNone, firstSome?_of_eq_some hHead, Option.bind_some, hCaptured]

end

/-! ### Words -/

theorem isPlain_word (same : Char → Char → Bool) (letters : List Char) :
    (word same letters).IsPlain := by
  induction letters with
  | nil => exact trivial
  | cons c letters ih => exact ⟨trivial, ih⟩

/-- A word denotes what is folded to it. -/
theorem denotes_word_iff {fold : Char → Char} {letters text : List Char} :
    (word (fun c d => c = fold d) letters).Denotes text ↔ text.map fold = letters := by
  induction letters generalizing text with
  | nil => exact List.map_eq_nil_iff.symm
  | cons c letters ih =>
    rw [List.map_eq_cons_iff]
    constructor
    · rintro ⟨_, second, rfl, ⟨d, rfl, hd⟩, hSecond⟩
      exact ⟨d, second, rfl, (of_decide_eq_true hd).symm, ih.mp hSecond⟩
    · rintro ⟨d, second, rfl, rfl, hSecond⟩
      exact ⟨[d], second, rfl, ⟨d, rfl, decide_eq_true rfl⟩, ih.mpr hSecond⟩

end Pattern

end Diorama.Text
