import Diorama.Diagram.Statement
import Diorama.Proofs.List.Runs

/-!
# Lines in their parts

`NodeLine` and `EdgeLine` are lines in their parts, each part as the grammar has it, and `text` puts the
parts together. They are found again in the text, so that no line has two decompositions
(`NodeLine.text_injective`, `EdgeLine.text_injective`), and the readers of nodes and edges accept exactly
the texts that have parts (`node?_eq_some_iff`, `edge?_eq_some_iff`).
-/

namespace Diorama.Statement

abbrev IsIdentifier (text : List Char) : Prop := IsRun isWordChar text

abbrev IsGap (text : List Char) : Prop := ∀ c ∈ text, isGap c = true

/-- A line that declares a node. Its brackets may be of different shapes. -/
structure NodeLine where
  id : List Char
  gap : List Char
  opener : Char
  body : List Char
  closer : Char
  rest : List Char
  isIdentifier_id : IsIdentifier id
  isGap_gap : IsGap gap
  opens_opener : opensLabel opener = true
  isRun_body : IsRun (!closesLabel ·) body
  closes_closer : closesLabel closer = true

/-- The label between the bars behind an arrow, and the gap behind the second bar. -/
structure BarLabel where
  body : List Char
  gap : List Char
  isRun_body : IsRun (· ≠ '|') body
  isGap_gap : IsGap gap

/-- A line that tells an edge. Its target does not go on in the rest. -/
structure EdgeLine where
  source : List Char
  gap : List Char
  arrow : List Char
  gapAfter : List Char
  label : Option BarLabel
  target : List Char
  rest : List Char
  isIdentifier_source : IsIdentifier source
  isGap_gap : IsGap gap
  isRun_arrow : IsRun isArrowBody arrow
  isGap_gapAfter : IsGap gapAfter
  isIdentifier_target : IsIdentifier target
  endsRun_rest : EndsRun isWordChar rest

namespace NodeLine

def text (p : NodeLine) : List Char :=
  p.id ++ p.gap ++ [p.opener] ++ p.body ++ [p.closer] ++ p.rest

def label (p : NodeLine) : String := String.ofList (Text.trim p.body)

def statement (p : NodeLine) : Statement := .node (String.ofList p.id) p.label

/-- What follows the identifier and its gap. -/
def labelText (p : NodeLine) : List Char := p.opener :: (p.body ++ p.closer :: p.rest)

theorem text_eq (p : NodeLine) : p.text = p.id ++ (p.gap ++ p.labelText) := by
  simp [text, labelText]

end NodeLine

def BarLabel.text (l : BarLabel) : List Char := '|' :: (l.body ++ '|' :: l.gap)

def BarLabel.label (l : BarLabel) : String := String.ofList (Text.trim l.body)

namespace EdgeLine

def text (p : EdgeLine) : List Char :=
  p.source ++ p.gap ++ p.arrow ++ ['>'] ++ p.gapAfter ++ p.label.elim [] BarLabel.text ++
    p.target ++ p.rest

def statement (p : EdgeLine) : Statement :=
  .edge (String.ofList p.source) (String.ofList p.target) (p.label.map BarLabel.label)

/-- What follows the arrow and its gap. -/
def targetText (p : EdgeLine) : List Char :=
  p.label.elim [] BarLabel.text ++ (p.target ++ p.rest)

/-- What follows the source and its gap. -/
def arrowText (p : EdgeLine) : List Char := p.arrow ++ '>' :: (p.gapAfter ++ p.targetText)

theorem text_eq (p : EdgeLine) : p.text = p.source ++ (p.gap ++ p.arrowText) := by
  simp [text, arrowText, targetText]

end EdgeLine

/-! ### Classes of characters

These tell that no character of a part goes on with the part before it.
-/

section

variable {p : Char → Bool} {c : Char}

theorem eq_false_of_isGap (hAll : p ' ' = false ∧ p '\t' = false) (h : isGap c = true) :
    p c = false := by
  simp only [isGap, Bool.or_eq_true, decide_eq_true_eq] at h
  rcases h with rfl | rfl
  · exact hAll.1
  · exact hAll.2

theorem eq_false_of_opensLabel (hAll : p '[' = false ∧ p '(' = false ∧ p '\x7b' = false)
    (h : opensLabel c = true) : p c = false := by
  simp only [opensLabel, Bool.or_eq_true, decide_eq_true_eq] at h
  rcases h with (rfl | rfl) | rfl
  · exact hAll.1
  · exact hAll.2.1
  · exact hAll.2.2

theorem eq_false_of_isArrowBody (hAll : p '-' = false ∧ p '.' = false) (h : isArrowBody c = true) :
    p c = false := by
  simp only [isArrowBody, Bool.or_eq_true, decide_eq_true_eq] at h
  rcases h with rfl | rfl
  · exact hAll.1
  · exact hAll.2

theorem isGap_eq_false_of_isWordChar (h : isWordChar c = true) : isGap c = false := by
  by_contra hGap
  rw [eq_false_of_isGap (p := isWordChar) (by decide) (by simpa using hGap)] at h
  cases h

end

/-- Every text splits into a gap and what follows it. -/
theorem exists_gap_append (text : List Char) :
    ∃ gap, IsGap gap ∧ text = gap ++ text.dropWhile isGap :=
  ⟨text.takeWhile isGap, fun _ => List.mem_takeWhile_imp, List.takeWhile_append_dropWhile.symm⟩

section

variable {text rest : List Char}

theorem word?_append {word : List Char} (hWord : IsIdentifier word)
    (hRest : EndsRun isWordChar rest) :
    word? (word ++ rest) = some (String.ofList word, rest) := by
  rw [word?, takeWhile_append_of_endsRun hWord.2 hRest, dropWhile_append_of_endsRun hWord.2 hRest]
  cases word with
  | nil => exact absurd rfl hWord.1
  | cons c word => rfl

theorem exists_of_word? {w : String} (h : word? text = some (w, rest)) :
    ∃ word, IsIdentifier word ∧ EndsRun isWordChar rest ∧ text = word ++ rest ∧
      w = String.ofList word := by
  unfold word? at h
  split at h
  · cases h
  · next hWord =>
    cases h
    exact ⟨_, isRun_takeWhile hWord, endsRun_dropWhile text,
      List.takeWhile_append_dropWhile.symm, rfl⟩

/-! ### Node lines -/

theorem exists_of_label? {label : String} (h : label? text = some label) :
    ∃ opener body closer rest, text = opener :: (body ++ closer :: rest) ∧
      opensLabel opener = true ∧ IsRun (!closesLabel ·) body ∧ closesLabel closer = true ∧
      label = String.ofList (Text.trim body) := by
  unfold label? at h
  split at h
  · next opener inner =>
    simp only at h
    split_ifs at h with hLabel
    obtain ⟨hOpens, hBody, hCloser⟩ := hLabel
    cases h
    obtain ⟨closer, rest, hDrop⟩ := List.exists_cons_of_ne_nil hCloser
    have hEnd := endsRun_dropWhile (p := (!closesLabel ·)) inner
    rw [hDrop] at hEnd
    refine ⟨opener, _, closer, rest, ?_, hOpens, isRun_takeWhile hBody, ?_, rfl⟩
    · rw [← hDrop, List.takeWhile_append_dropWhile]
    · simpa using hEnd closer rfl
  · cases h

end

namespace NodeLine

variable (p : NodeLine)

theorem endsRun_closer : EndsRun (!closesLabel ·) (p.closer :: p.rest) :=
  endsRun_cons (by rw [p.closes_closer]; rfl)

theorem endsRun_isGap_labelText : EndsRun isGap p.labelText :=
  endsRun_cons (eq_false_of_opensLabel (p := isGap) (by decide) p.opens_opener)

theorem endsRun_isWordChar_gap_labelText : EndsRun isWordChar (p.gap ++ p.labelText) := by
  refine EndsRun.append (fun _ => eq_false_of_isGap (p := isWordChar) (by decide)) p.isGap_gap ?_
  exact endsRun_cons (eq_false_of_opensLabel (p := isWordChar) (by decide) p.opens_opener)

theorem label?_labelText : label? p.labelText = some p.label := by
  have hTake := takeWhile_append_of_endsRun p.isRun_body.2 p.endsRun_closer
  have hDrop := dropWhile_append_of_endsRun p.isRun_body.2 p.endsRun_closer
  simp only [labelText, label?, hTake, hDrop]
  exact if_pos ⟨p.opens_opener, p.isRun_body.1, List.cons_ne_nil _ _⟩

theorem node?_text : node? p.text = some p.statement := by
  rw [node?, p.text_eq, word?_append p.isIdentifier_id p.endsRun_isWordChar_gap_labelText]
  show (label? ((p.gap ++ p.labelText).dropWhile isGap)).bind _ = _
  rw [dropWhile_append_of_endsRun p.isGap_gap p.endsRun_isGap_labelText, p.label?_labelText]
  rfl

/-- **A node line has one decomposition.** -/
theorem text_injective : Function.Injective text := by
  intro p q h
  rw [p.text_eq, q.text_eq] at h
  obtain ⟨hId, h⟩ := eq_of_append_eq_append p.isIdentifier_id.2 p.endsRun_isWordChar_gap_labelText
    q.isIdentifier_id.2 q.endsRun_isWordChar_gap_labelText h
  obtain ⟨hGap, h⟩ := eq_of_append_eq_append p.isGap_gap p.endsRun_isGap_labelText
    q.isGap_gap q.endsRun_isGap_labelText h
  obtain ⟨hOpener, h⟩ := List.cons.inj h
  obtain ⟨hBody, h⟩ := eq_of_append_eq_append p.isRun_body.2 p.endsRun_closer
    q.isRun_body.2 q.endsRun_closer h
  obtain ⟨hCloser, hRest⟩ := List.cons.inj h
  cases p
  cases q
  simp only [NodeLine.mk.injEq]
  exact ⟨hId, hGap, hOpener, hBody, hCloser, hRest⟩

end NodeLine

theorem node?_eq_some_iff {text : List Char} {s : Statement} :
    node? text = some s ↔ ∃ p : NodeLine, p.text = text ∧ p.statement = s := by
  constructor
  · intro h
    obtain ⟨⟨id, afterId⟩, hWord, h⟩ := Option.bind_eq_some_iff.mp h
    obtain ⟨label, hLabel, h⟩ := Option.bind_eq_some_iff.mp h
    obtain ⟨word, hId, -, rfl, rfl⟩ := exists_of_word? hWord
    obtain ⟨gap, hGap, hAfter⟩ := exists_gap_append afterId
    obtain ⟨opener, body, closer, rest, hText, hOpener, hBody, hCloser, rfl⟩ :=
      exists_of_label? hLabel
    refine ⟨⟨word, gap, opener, body, closer, rest, hId, hGap, hOpener, hBody, hCloser⟩, ?_,
      Option.some.inj h⟩
    rw [NodeLine.text_eq, hAfter, hText]
    rfl
  · rintro ⟨p, rfl, rfl⟩
    exact p.node?_text

/-! ### Edge lines -/

theorem afterArrow?_append {arrow gap rest : List Char} (hArrow : IsRun isArrowBody arrow)
    (hGap : IsGap gap) (hRest : EndsRun isGap rest) :
    afterArrow? (arrow ++ '>' :: (gap ++ rest)) = some rest := by
  have hEnd : EndsRun isArrowBody ('>' :: (gap ++ rest)) := endsRun_cons (by decide)
  rw [afterArrow?, takeWhile_append_of_endsRun hArrow.2 hEnd,
    dropWhile_append_of_endsRun hArrow.2 hEnd]
  cases arrow with
  | nil => exact absurd rfl hArrow.1
  | cons c arrow => exact congrArg some (dropWhile_append_of_endsRun hGap hRest)

theorem exists_of_afterArrow? {text rest : List Char} (h : afterArrow? text = some rest) :
    ∃ arrow gap, text = arrow ++ '>' :: (gap ++ rest) ∧ IsRun isArrowBody arrow ∧ IsGap gap := by
  unfold afterArrow? at h
  split at h
  · next c body inner hTake hDrop =>
    cases h
    obtain ⟨gap, hGap, hInner⟩ := exists_gap_append inner
    refine ⟨text.takeWhile isArrowBody, gap, ?_, isRun_takeWhile (by simp [hTake]), hGap⟩
    rw [← hInner, ← hDrop, List.takeWhile_append_dropWhile]
  · cases h

theorem BarLabel.endsRun_bar (l : BarLabel) (rest : List Char) :
    EndsRun (· ≠ '|') ('|' :: (l.gap ++ rest)) :=
  endsRun_cons (by decide)

theorem edgeLabel?_append (l : BarLabel) {rest : List Char} (hRest : EndsRun isGap rest) :
    edgeLabel? (l.text ++ rest) = some (some l.label, rest) := by
  have hTake := takeWhile_append_of_endsRun l.isRun_body.2 (l.endsRun_bar rest)
  have hDrop := dropWhile_append_of_endsRun l.isRun_body.2 (l.endsRun_bar rest)
  obtain ⟨c, body, hBody⟩ := List.exists_cons_of_ne_nil l.isRun_body.1
  rw [BarLabel.text, List.cons_append, List.append_assoc, List.cons_append, edgeLabel?, hTake, hDrop,
    hBody, BarLabel.label, hBody]
  simp only [dropWhile_append_of_endsRun l.isGap_gap hRest]

theorem edgeLabel?_of_head?_ne {text : List Char} (h : text.head? ≠ some '|') :
    edgeLabel? text = some (none, text) := by
  unfold edgeLabel?
  split
  · exact absurd rfl h
  · rfl

theorem exists_of_edgeLabel? {text rest : List Char} {label : Option String}
    (h : edgeLabel? text = some (label, rest)) :
    ∃ l : Option BarLabel, text = l.elim [] BarLabel.text ++ rest ∧
      label = l.map BarLabel.label := by
  unfold edgeLabel? at h
  split at h
  · next inner =>
    split at h
    · next c body d after hTake hDrop =>
      cases h
      obtain ⟨gap, hGap, hAfter⟩ := exists_gap_append after
      have hNe : inner.takeWhile (· ≠ '|') ≠ [] := by rw [hTake]; exact List.cons_ne_nil c body
      have hBody : IsRun (· ≠ '|') (c :: body) := hTake ▸ isRun_takeWhile hNe
      have hBar : d = '|' := by
        have hEnd := endsRun_dropWhile (p := (· ≠ '|')) inner
        rw [hDrop] at hEnd
        simpa using hEnd d rfl
      refine ⟨some ⟨c :: body, gap, hBody, hGap⟩, ?_, rfl⟩
      simp only [Option.elim_some, BarLabel.text, List.cons_append, List.append_assoc]
      rw [← hAfter, ← hBar, ← hDrop, ← List.cons_append, ← hTake, List.takeWhile_append_dropWhile]
    · cases h
  · cases h
    exact ⟨none, rfl, rfl⟩

namespace EdgeLine

variable (p : EdgeLine)

theorem endsRun_isGap_target : EndsRun isGap (p.target ++ p.rest) :=
  .append_of_isRun (fun _ => isGap_eq_false_of_isWordChar) p.isIdentifier_target

theorem head?_target_ne : (p.target ++ p.rest).head? ≠ some '|' := by
  have hEnd : EndsRun (· = '|') (p.target ++ p.rest) := by
    refine .append_of_isRun (fun c hc => ?_) p.isIdentifier_target
    rw [decide_eq_false_iff_not]
    rintro rfl
    exact absurd hc (by decide)
  intro h
  exact absurd (hEnd '|' h) (by decide)

theorem endsRun_isGap_targetText : EndsRun isGap p.targetText := by
  rw [targetText]
  cases p.label with
  | none => exact p.endsRun_isGap_target
  | some l => exact endsRun_cons (by decide)

theorem endsRun_isArrowBody_gapAfter :
    EndsRun isArrowBody ('>' :: (p.gapAfter ++ p.targetText)) :=
  endsRun_cons (by decide)

theorem endsRun_isGap_arrowText : EndsRun isGap p.arrowText :=
  .append_of_isRun (fun _ => eq_false_of_isArrowBody (p := isGap) (by decide)) p.isRun_arrow

theorem endsRun_isWordChar_gap_arrowText : EndsRun isWordChar (p.gap ++ p.arrowText) := by
  refine EndsRun.append (fun _ => eq_false_of_isGap (p := isWordChar) (by decide)) p.isGap_gap ?_
  exact EndsRun.append_of_isRun
    (fun _ => eq_false_of_isArrowBody (p := isWordChar) (by decide)) p.isRun_arrow

theorem edgeLabel?_targetText :
    edgeLabel? p.targetText = some (p.label.map BarLabel.label, p.target ++ p.rest) := by
  rw [targetText]
  cases p.label with
  | none => exact edgeLabel?_of_head?_ne p.head?_target_ne
  | some l => exact edgeLabel?_append l p.endsRun_isGap_target

theorem edge?_text : edge? p.text = some p.statement := by
  rw [edge?, p.text_eq, word?_append p.isIdentifier_source p.endsRun_isWordChar_gap_arrowText]
  show (afterArrow? ((p.gap ++ p.arrowText).dropWhile isGap)).bind _ = _
  rw [dropWhile_append_of_endsRun p.isGap_gap p.endsRun_isGap_arrowText, arrowText,
    afterArrow?_append p.isRun_arrow p.isGap_gapAfter p.endsRun_isGap_targetText]
  show (edgeLabel? p.targetText).bind _ = _
  rw [p.edgeLabel?_targetText]
  show (word? (p.target ++ p.rest)).bind _ = _
  rw [word?_append p.isIdentifier_target p.endsRun_rest]
  rfl

end EdgeLine

theorem BarLabel.eq_of_append_eq {l l' : BarLabel} {rest rest' : List Char}
    (hRest : EndsRun isGap rest) (hRest' : EndsRun isGap rest')
    (h : l.text ++ rest = l'.text ++ rest') : l = l' ∧ rest = rest' := by
  rw [BarLabel.text, BarLabel.text, List.cons_append, List.append_assoc, List.cons_append,
    List.cons_append, List.append_assoc, List.cons_append] at h
  obtain ⟨hBody, h⟩ := eq_of_append_eq_append l.isRun_body.2 (l.endsRun_bar rest)
    l'.isRun_body.2 (l'.endsRun_bar rest') (List.cons.inj h).2
  obtain ⟨hGap, hRests⟩ := eq_of_append_eq_append l.isGap_gap hRest l'.isGap_gap hRest'
    (List.cons.inj h).2
  cases l
  cases l'
  simp only [BarLabel.mk.injEq]
  exact ⟨⟨hBody, hGap⟩, hRests⟩

namespace EdgeLine

/-- A bar tells a label from a target. -/
theorem eq_of_targetText_eq {p q : EdgeLine} (h : p.targetText = q.targetText) :
    p.label = q.label ∧ p.target ++ p.rest = q.target ++ q.rest := by
  rw [targetText, targetText] at h
  cases hp : p.label with
  | none =>
    cases hq : q.label with
    | none =>
      rw [hp, hq] at h
      exact ⟨rfl, h⟩
    | some l =>
      rw [hp, hq] at h
      exact absurd (congrArg List.head? h) p.head?_target_ne
  | some l =>
    cases hq : q.label with
    | none =>
      rw [hp, hq] at h
      exact absurd (congrArg List.head? h.symm) q.head?_target_ne
    | some l' =>
      rw [hp, hq] at h
      obtain ⟨rfl, hRest⟩ :=
        BarLabel.eq_of_append_eq p.endsRun_isGap_target q.endsRun_isGap_target h
      exact ⟨rfl, hRest⟩

/-- **An edge line has one decomposition.** -/
theorem text_injective : Function.Injective text := by
  intro p q h
  rw [p.text_eq, q.text_eq] at h
  obtain ⟨hSource, h⟩ := eq_of_append_eq_append p.isIdentifier_source.2
    p.endsRun_isWordChar_gap_arrowText q.isIdentifier_source.2 q.endsRun_isWordChar_gap_arrowText h
  obtain ⟨hGap, h⟩ := eq_of_append_eq_append p.isGap_gap p.endsRun_isGap_arrowText
    q.isGap_gap q.endsRun_isGap_arrowText h
  obtain ⟨hArrow, h⟩ := eq_of_append_eq_append p.isRun_arrow.2 p.endsRun_isArrowBody_gapAfter
    q.isRun_arrow.2 q.endsRun_isArrowBody_gapAfter h
  obtain ⟨hGapAfter, h⟩ := eq_of_append_eq_append p.isGap_gapAfter p.endsRun_isGap_targetText
    q.isGap_gapAfter q.endsRun_isGap_targetText (List.cons.inj h).2
  obtain ⟨hLabel, h⟩ := eq_of_targetText_eq h
  obtain ⟨hTarget, hRest⟩ := eq_of_append_eq_append p.isIdentifier_target.2 p.endsRun_rest
    q.isIdentifier_target.2 q.endsRun_rest h
  cases p
  cases q
  simp only [EdgeLine.mk.injEq]
  exact ⟨hSource, hGap, hArrow, hGapAfter, hLabel, hTarget, hRest⟩

end EdgeLine

theorem edge?_eq_some_iff {text : List Char} {s : Statement} :
    edge? text = some s ↔ ∃ p : EdgeLine, p.text = text ∧ p.statement = s := by
  constructor
  · intro h
    obtain ⟨⟨source, afterSource⟩, hReadSource, h⟩ := Option.bind_eq_some_iff.mp h
    obtain ⟨afterArrow, hReadArrow, h⟩ := Option.bind_eq_some_iff.mp h
    obtain ⟨⟨label, afterLabel⟩, hReadLabel, h⟩ := Option.bind_eq_some_iff.mp h
    obtain ⟨⟨target, rest⟩, hReadTarget, h⟩ := Option.bind_eq_some_iff.mp h
    obtain ⟨source, hSource, -, rfl, rfl⟩ := exists_of_word? hReadSource
    obtain ⟨gap, hGap, hAfter⟩ := exists_gap_append afterSource
    obtain ⟨arrow, gapAfter, hText, hArrow, hGapAfter⟩ := exists_of_afterArrow? hReadArrow
    obtain ⟨label, rfl, rfl⟩ := exists_of_edgeLabel? hReadLabel
    obtain ⟨target, hTarget, hRest, rfl, rfl⟩ := exists_of_word? hReadTarget
    refine ⟨⟨source, gap, arrow, gapAfter, label, target, rest, hSource, hGap, hArrow, hGapAfter,
      hTarget, hRest⟩, ?_, Option.some.inj h⟩
    rw [EdgeLine.text_eq, hAfter, hText]
    rfl
  · rintro ⟨p, rfl, rfl⟩
    exact p.edge?_text

end Diorama.Statement
