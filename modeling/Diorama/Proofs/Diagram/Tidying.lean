import Diorama.Proofs.Diagram.Spans
import Diorama.Proofs.List.Related

/-!
# Sources that differ in blanks and comments

`substance` is what is left of a source without the blanks around its lines, without blank lines and
without comments. Two sources of the same substance are read alike: step by step the two readings
hold the same graph, have regions of the same names open and have met the same problems, and only the
places differ (`Alike.step`). The places belong to the same texts, so that two diagnostics that
correspond quote the same part of their sources (`ofSource_of_substance_eq`).
-/

namespace Diorama

/-! ### What a source says -/

/-- Whether a line without surrounding blanks is neither blank nor a comment. -/
def isSubstantial (text : List Char) : Bool := text ≠ [] ∧ ¬ "%%".toList <+: text

/-- The lines of a source that are neither blank nor comments, without the blanks around them. -/
def substance (source : String) : List (List Char) :=
  ((source.toList.splitOn '\n').map Text.trim).filter isSubstantial

theorem map_text_placeLines (offset : Nat) (lines : List (List Char)) :
    (placeLines offset lines).map SourceLine.text = lines.map Text.trim := by
  induction lines generalizing offset with
  | nil => rfl
  | cons line lines ih => rw [placeLines, List.map_cons, ih, List.map_cons]

theorem map_text_filter_sourceLines (source : String) :
    ((sourceLines source.toList).filter (isSubstantial ·.text)).map SourceLine.text =
      substance source := by
  rw [substance, ← map_text_placeLines 0, List.filter_map]
  rfl

/-- The span of a source has this text. -/
def IsSlice (source : String) (span : Span) (text : String) : Prop :=
  source.toByteArray.extract span.start span.stop = text.toByteArray

theorem isSlice_of_mem_sourceLines {source : String} {line : SourceLine}
    (h : line ∈ sourceLines source.toList) : IsSlice source line.span (String.ofList line.text) := by
  obtain ⟨k, hk⟩ := List.mem_iff_getElem?.mp h
  exact (isLine_of_getElem? hk).extract_eq

/-- The two spans have the same text, each in its source. -/
def SameSlice (source source' : String) (span span' : Span) : Prop :=
  ∃ text, IsSlice source span text ∧ IsSlice source' span' text

/-! ### Alike but for the places

All that is read from two sources is compared up to a relation between the places. -/

section

variable (same : Span → Span → Prop)

structure Label.Alike (l l' : Label) : Prop where
  span : same l.span l'.span
  text : l.text = l'.text
  isPrimary : l.isPrimary = l'.isPrimary

structure Diagnostic.Alike (d d' : Diagnostic) : Prop where
  severity : d.severity = d'.severity
  code : d.code = d'.code
  message : d.message = d'.message
  labels : List.Forall₂ (Label.Alike same) d.labels d'.labels
  help : d.help = d'.help

inductive Problem.Alike : Problem → Problem → Prop
  | emptySource {span span' : Span} : same span span' → Alike (.emptySource span) (.emptySource span')
  | unrecognizedStatement {span span' : Span} (line : String) : same span span' →
      Alike (.unrecognizedStatement line span) (.unrecognizedStatement line span')
  | unmatchedEnd {span span' : Span} : same span span' →
      Alike (.unmatchedEnd span) (.unmatchedEnd span')
  | unclosedRegion {span span' : Span} (title : String) : same span span' →
      Alike (.unclosedRegion title span) (.unclosedRegion title span')

structure SourceLine.Alike (line line' : SourceLine) : Prop where
  span : same line.span line'.span
  text : line.text = line'.text

structure OpenRegion.Alike (region region' : OpenRegion) : Prop where
  name : region.name = region'.name
  opener : same region.opener region'.opener

structure Reading.Alike (r r' : Reading) : Prop where
  isStrict : r.isStrict = r'.isStrict
  graph : r.graph = r'.graph
  openRegions : List.Forall₂ (OpenRegion.Alike same) r.openRegions r'.openRegions
  problems : List.Forall₂ (Problem.Alike same) r.problems r'.problems

end

variable {same : Span → Span → Prop}

/-- Problems that are alike are told in the same words. -/
theorem Problem.Alike.diagnostic {p p' : Problem} (h : p.Alike same p') :
    p.diagnostic.Alike same p'.diagnostic := by
  cases h with
  | emptySource hSpan | unrecognizedStatement _ hSpan | unmatchedEnd hSpan
  | unclosedRegion _ hSpan =>
    exact ⟨rfl, rfl, rfl, .cons ⟨hSpan, rfl, rfl⟩ .nil, rfl⟩

namespace Reading

theorem alike_start (strict : Bool) : (start strict).Alike same (start strict) :=
  ⟨rfl, rfl, .nil, .nil⟩

namespace Alike

variable {r r' : Reading} {line line' : SourceLine}

theorem report (h : r.Alike same r') {p p' : Problem} (hp : p.Alike same p') :
    (r.report p).Alike same (r'.report p') := by
  unfold Reading.report
  rw [h.isStrict]
  split
  · exact ⟨rfl, h.graph, h.openRegions, List.rel_append h.problems (.cons hp .nil)⟩
  · exact h

/-- The innermost open regions have the same name. -/
theorem head_openRegions (h : r.Alike same r') :
    r.openRegions.head?.map (·.name) = r'.openRegions.head?.map (·.name) := by
  have hRegions := h.openRegions
  generalize r.openRegions = regions, r'.openRegions = regions' at hRegions ⊢
  cases hRegions with
  | nil => rfl
  | cons hFirst _ => exact congrArg some hFirst.name

theorem closeRegion (h : r.Alike same r') (hLine : line.Alike same line') :
    (r.apply line .closeRegion).Alike same (r'.apply line' .closeRegion) := by
  have hRegions := h.openRegions
  unfold Reading.apply
  generalize r.openRegions = regions, r'.openRegions = regions' at hRegions ⊢
  cases hRegions with
  | nil => exact h.report (.unmatchedEnd hLine.span)
  | cons hFirst hOuter => exact ⟨h.isStrict, h.graph, hOuter, h.problems⟩

/-- A statement does the same to readings that are alike. -/
theorem apply (h : r.Alike same r') (hLine : line.Alike same line') (s : Statement) :
    (r.apply line s).Alike same (r'.apply line' s) := by
  cases s with
  | openRegion identifier title =>
    unfold Reading.apply
    rw [h.graph]
    exact ⟨h.isStrict, rfl, .cons ⟨rfl, hLine.span⟩ h.openRegions, h.problems⟩
  | closeRegion => exact h.closeRegion hLine
  | node id label =>
    unfold Reading.apply
    rw [h.graph, h.head_openRegions]
    exact ⟨h.isStrict, rfl, h.openRegions, h.problems⟩
  | edge source target label =>
    unfold Reading.apply
    rw [h.graph]
    exact ⟨h.isStrict, rfl, h.openRegions, h.problems⟩
  | unrecognized =>
    unfold Reading.apply
    rw [hLine.text]
    exact h.report (.unrecognizedStatement _ hLine.span)
  | blank | comment | header => exact h

theorem step (h : r.Alike same r') (hLine : line.Alike same line') :
    (r.step line).Alike same (r'.step line') := by
  unfold Reading.step
  rw [hLine.text]
  exact h.apply hLine _

theorem foldl_step (h : r.Alike same r') {lines lines' : List SourceLine}
    (hLines : List.Forall₂ (SourceLine.Alike same) lines lines') :
    (lines.foldl Reading.step r).Alike same (lines'.foldl Reading.step r') := by
  induction hLines generalizing r r' with
  | nil => exact h
  | cons hFirst _ ih => exact ih (h.step hFirst)

theorem reportOpen (h : r.Alike same r') : r.reportOpen.Alike same r'.reportOpen := by
  have hRegions := h.openRegions
  unfold Reading.reportOpen
  generalize r.openRegions = regions, r'.openRegions = regions' at hRegions ⊢
  induction hRegions with
  | nil => exact h
  | cons hFirst _ ih =>
    rw [List.foldr_cons, List.foldr_cons, hFirst.name]
    exact ih.report (.unclosedRegion _ hFirst.opener)

/-- Readings that are alike both succeed or both fail. -/
theorem finish (h : r.Alike same r') :
    (r.finish = .ok r.graph ∧ r'.finish = .ok r.graph) ∨
      ∃ problems problems', r.finish = .error problems ∧ r'.finish = .error problems' ∧
        List.Forall₂ (Problem.Alike same) problems problems' := by
  have hProblems := h.reportOpen.problems
  unfold Reading.finish
  by_cases hNone : r.reportOpen.problems = []
  · have hNone' : r'.reportOpen.problems = [] := by
      rw [hNone, List.forall₂_nil_left_iff] at hProblems
      exact hProblems
    rw [if_pos hNone, if_pos hNone', h.graph]
    exact .inl ⟨rfl, rfl⟩
  · have hSome' : r'.reportOpen.problems ≠ [] := by
      intro hNone'
      rw [hNone', List.forall₂_nil_right_iff] at hProblems
      exact hNone hProblems
    rw [if_neg hNone, if_neg hSome']
    exact .inr ⟨_, _, rfl, rfl, hProblems⟩

end Alike

/-! ### Lines that say nothing -/

theorem step_of_not_isSubstantial (r : Reading) {line : SourceLine}
    (hTrim : Text.trim line.text = line.text) (h : isSubstantial line.text = false) :
    r.step line = r := by
  rw [isSubstantial, decide_eq_false_iff_not, not_and_or, not_not, not_not] at h
  rw [step, Statement.ofLine, hTrim, Statement.ofTrimmed]
  rcases h with h | h
  · rw [if_pos h]
    rfl
  · have hSome : line.text ≠ [] := by
      intro hNil
      rw [hNil] at h
      exact absurd (List.prefix_nil.mp h) (by decide)
    rw [if_neg hSome, if_pos h]
    rfl

/-- Blank lines and comments can be left out. -/
theorem foldl_step_filter (r : Reading) {lines : List SourceLine}
    (hTrim : ∀ line ∈ lines, Text.trim line.text = line.text) :
    (lines.filter (isSubstantial ·.text)).foldl step r = lines.foldl step r := by
  induction lines generalizing r with
  | nil => rfl
  | cons line lines ih =>
    have hRest := fun l hl => hTrim l (List.mem_cons_of_mem _ hl)
    cases hLine : isSubstantial line.text with
    | true =>
      rw [List.filter_cons, if_pos hLine, List.foldl_cons, List.foldl_cons]
      exact ih _ hRest
    | false =>
      have hStep := step_of_not_isSubstantial r (hTrim line List.mem_cons_self) hLine
      rw [List.filter_cons, if_neg (by simp [hLine]), List.foldl_cons, hStep]
      exact ih r hRest

theorem trim_text_of_mem_sourceLines {source : String} {line : SourceLine}
    (h : line ∈ sourceLines source.toList) : Text.trim line.text = line.text := by
  have hText := List.mem_map_of_mem (f := SourceLine.text) h
  rw [sourceLines, map_text_placeLines] at hText
  obtain ⟨chars, -, hChars⟩ := List.mem_map.mp hText
  rw [← hChars, Text.trim_trim]

/-- The lines that say something stand in two sources of the same substance one for one. -/
theorem forall₂_filter_sourceLines {source source' : String}
    (h : substance source = substance source') :
    List.Forall₂ (SourceLine.Alike (SameSlice source source'))
      ((sourceLines source.toList).filter (isSubstantial ·.text))
      ((sourceLines source'.toList).filter (isSubstantial ·.text)) := by
  rw [← map_text_filter_sourceLines, ← map_text_filter_sourceLines, ← List.forall₂_eq_eq_eq,
    List.forall₂_map_left_iff, List.forall₂_map_right_iff] at h
  refine forall₂_imp_of_mem h fun line hLine line' hLine' hText => ⟨?_, hText⟩
  have hSlice := isSlice_of_mem_sourceLines (List.mem_of_mem_filter hLine)
  have hSlice' := isSlice_of_mem_sourceLines (List.mem_of_mem_filter hLine')
  rw [← hText] at hSlice'
  exact ⟨_, hSlice, hSlice'⟩

/-- **Sources of the same substance are read alike.** -/
theorem alike_ofLines (strict : Bool) {source source' : String}
    (h : substance source = substance source') :
    (ofLines strict (sourceLines source.toList)).Alike (SameSlice source source')
      (ofLines strict (sourceLines source'.toList)) := by
  have hLines := (alike_start strict).foldl_step (forall₂_filter_sourceLines h)
  rw [foldl_step_filter _ fun _ => trim_text_of_mem_sourceLines,
    foldl_step_filter _ fun _ => trim_text_of_mem_sourceLines] at hLines
  exact hLines

end Reading

namespace Graph

open Reading

theorem ofSource_eq_finish {source : String} (hSource : ¬ IsBlank source) (strict : Bool) :
    ofSource strict source = (ofLines strict (sourceLines source.toList)).finish :=
  if_neg hSource

/-- Two sources of the same substance are both read or both rejected. -/
theorem ofSource_alike {source source' : String} (hSource : ¬ IsBlank source)
    (hSource' : ¬ IsBlank source') (hSame : substance source = substance source') (strict : Bool) :
    (∃ g, ofSource strict source = .ok g ∧ ofSource strict source' = .ok g) ∨
      ∃ problems problems', ofSource strict source = .error problems ∧
        ofSource strict source' = .error problems' ∧
        List.Forall₂ (Problem.Alike (SameSlice source source')) problems problems' := by
  rw [ofSource_eq_finish hSource, ofSource_eq_finish hSource']
  rcases (alike_ofLines strict hSame).finish with ⟨hOk, hOk'⟩ | hError
  · exact .inl ⟨_, hOk, hOk'⟩
  · exact .inr hError

/-- **Blanks around lines, blank lines and comments do not matter.** Two sources of the same substance
are read permissively as the same graph. Read strictly, they give the same graph, or both are rejected
and then with diagnostics that agree one for one in everything but their places, and these have the same
text. -/
theorem ofSource_of_substance_eq {source source' : String} (hSource : ¬ IsBlank source)
    (hSource' : ¬ IsBlank source') (hSame : substance source = substance source') :
    (∃ g, ofSource false source = .ok g ∧ ofSource false source' = .ok g) ∧
      ((∃ g, ofSource true source = .ok g ∧ ofSource true source' = .ok g) ∨
        ∃ problems problems', ofSource true source = .error problems ∧
          ofSource true source' = .error problems' ∧
          List.Forall₂ (Diagnostic.Alike (SameSlice source source'))
            (problems.map Problem.diagnostic) (problems'.map Problem.diagnostic)) := by
  constructor
  · rcases ofSource_alike hSource hSource' hSame false with hOk | ⟨problems, -, hError, -⟩
    · exact hOk
    · obtain ⟨g, hRead, -⟩ := ofSource_describes hSource
      rw [hRead] at hError
      cases hError
  · rcases ofSource_alike hSource hSource' hSame true with hOk | ⟨ps, ps', hError, hError', hAlike⟩
    · exact .inl hOk
    · refine .inr ⟨ps, ps', hError, hError', ?_⟩
      rw [List.forall₂_map_left_iff, List.forall₂_map_right_iff]
      exact hAlike.imp fun _ _ hp => hp.diagnostic

/-- Two regions of which one has no title, a line that is no statement, and an `end` too many. -/
def plainlyWritten : String := "subgraph\nA[a]\nend\noops\nEnd\nsubgraph b\nB[b]"

/-- The same lines with other blanks around them and comments in between. -/
def spacedOut : String :=
  "\u3000subgraph\r\n%% first\r\n\tA[a] \r\n  end\r\n\r\n\u00A0oops\u2003\r\n" ++
    "   %%End\n End\nsubgraph b\x0b\n B[b]\n"

theorem ofSource_of_substance_eq_spacedOut :
    ¬ IsBlank plainlyWritten ∧ ¬ IsBlank spacedOut ∧
      substance plainlyWritten = substance spacedOut ∧
      ∃ problems problems', ofSource true plainlyWritten = .error problems ∧
        ofSource true spacedOut = .error problems' ∧
        problems.filterMap code? = ["E100", "E102", "E101"] ∧
        List.Forall₂ (Diagnostic.Alike (SameSlice plainlyWritten spacedOut))
          (problems.map Problem.diagnostic) (problems'.map Problem.diagnostic) := by
  have hSource : ¬ IsBlank plainlyWritten := by decide +kernel
  have hSource' : ¬ IsBlank spacedOut := by decide +kernel
  have hSame : substance plainlyWritten = substance spacedOut := by decide +kernel
  have hCodes : (match ofSource true plainlyWritten with
      | .error problems => problems.filterMap code?
      | .ok _ => []) = ["E100", "E102", "E101"] := by
    decide +kernel
  refine ⟨hSource, hSource', hSame, ?_⟩
  rcases (ofSource_of_substance_eq hSource hSource' hSame).2 with
    ⟨g, hOk, -⟩ | ⟨problems, problems', hError, hError', hAlike⟩
  · rw [hOk] at hCodes
    cases hCodes
  · rw [hError] at hCodes
    exact ⟨problems, problems', hError, hError', hCodes, hAlike⟩

end Graph

end Diorama
