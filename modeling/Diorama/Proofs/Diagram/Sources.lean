import Diorama.Conversion.Basic
import Diorama.Proofs.Diagram.Problems
import Diorama.Proofs.Outcome

/-!
# Diagram sources

A source that is not blank is read permissively as the graph that its lines describe
(`ofSource_describes`). A strict reading gives the same graph or all problems of the lines, and a
blank source is refused by both (`ofSource_strict`).
-/

namespace Diorama

open Reading

/-- The lines of a source, each read on its own. -/
def statements (source : String) : List Statement :=
  (source.toList.splitOn '\n').map Statement.ofLine

def IsBlank (source : String) : Prop := source.toList.all Text.isBlank = true

instance (source : String) : Decidable (IsBlank source) := inferInstanceAs (Decidable (_ = true))

theorem map_statement_placeLines (offset : Nat) (lines : List (List Char)) :
    (placeLines offset lines).map SourceLine.statement = lines.map Statement.ofLine := by
  induction lines generalizing offset with
  | nil => rfl
  | cons line lines ih =>
    rw [placeLines, List.map_cons, ih, List.map_cons, SourceLine.statement, Statement.ofLine,
      Text.trim_trim, Statement.ofLine]

theorem map_statement_sourceLines (source : String) :
    (sourceLines source.toList).map SourceLine.statement = statements source :=
  map_statement_placeLines 0 _

namespace Graph

theorem ofSource_of_isBlank {source : String} (hBlank : IsBlank source) (strict : Bool) :
    ofSource strict source =
      .error [.emptySource (.ofLength 0 (Text.byteLength source.toList))] :=
  if_pos hBlank

/-- A reading of a source that is not blank. -/
theorem ofSource_of_not_isBlank {source : String} (hSource : ¬ IsBlank source) (strict : Bool) :
    ofSource strict source =
      if strict ∧ linesProblems (sourceLines source.toList) ≠ [] then
        .error (linesProblems (sourceLines source.toList))
      else .ok (ofLines strict (sourceLines source.toList)).graph := by
  rw [← finish_ofLines]
  exact if_neg hSource

theorem describes_ofLines (strict : Bool) (source : String) :
    Statement.Describes (statements source)
      (ofLines strict (sourceLines source.toList)).graph := by
  rw [← map_statement_sourceLines]
  exact (follows_ofLines strict _).graph

/-- Whatever is read, strictly or not, is what the lines describe. -/
theorem describes_of_ofSource {strict : Bool} {source : String} {g : Graph}
    (hRead : ofSource strict source = .ok g) : Statement.Describes (statements source) g := by
  by_cases hSource : IsBlank source
  · rw [ofSource_of_isBlank hSource] at hRead
    cases hRead
  · rw [ofSource_of_not_isBlank hSource] at hRead
    split at hRead
    · cases hRead
    · cases hRead
      exact describes_ofLines strict source

/-- **A source that is not blank is read permissively as the one graph that its lines describe.** -/
theorem ofSource_describes {source : String} (hSource : ¬ IsBlank source) :
    ∃ g, ofSource false source = .ok g ∧ Statement.Describes (statements source) g ∧
      ∀ g', Statement.Describes (statements source) g' → g' = g := by
  have hDescribes := describes_ofLines false source
  refine ⟨_, ?_, hDescribes, fun g' h => h.unique hDescribes⟩
  rw [ofSource_of_not_isBlank hSource, if_neg (by simp)]

/-- A node is declared again in an open region, after a region within that region; an `end` is too
many, and a region is opened twice. -/
def redeclaring : String :=
  "A[first]\nsubgraph x\nsubgraph y\nend\nA[Pod: web]\nend\nend\nB[b]\nsubgraph x"

theorem ofSource_describes_redeclaring :
    ¬ IsBlank redeclaring ∧ ∃ g, ofSource false redeclaring = .ok g ∧
      Statement.Describes (statements redeclaring) g ∧
      g.nodes = [⟨"A", "Pod: web", some .pod, "web", some "x"⟩, ⟨"B", "b", none, "b", none⟩] ∧
      g.regions = ["x", "y"] := by
  have hSource : ¬ IsBlank redeclaring := by decide +kernel
  have hNodes : (ofSource false redeclaring).toOption.map (·.nodes) =
      some [⟨"A", "Pod: web", some .pod, "web", some "x"⟩, ⟨"B", "b", none, "b", none⟩] := by
    decide +kernel
  obtain ⟨g, hRead, hDescribes, -⟩ := ofSource_describes hSource
  rw [hRead] at hNodes
  refine ⟨hSource, g, hRead, hDescribes, Option.some.inj hNodes, ?_⟩
  rw [hDescribes.regions]
  decide +kernel

/-! ### Strict readings -/

theorem ofLines_graph_eq (strict strict' : Bool) (source : String) :
    (ofLines strict (sourceLines source.toList)).graph =
      (ofLines strict' (sourceLines source.toList)).graph :=
  (describes_ofLines strict source).unique (describes_ofLines strict' source)

theorem linesProblems_sourceLines_eq_nil_iff {source : String} :
    linesProblems (sourceLines source.toList) = [] ↔ IsClean (statements source) := by
  rw [linesProblems_eq_nil_iff, map_statement_sourceLines]

theorem code_ne_emptySource {lines : List SourceLine} {p : Problem}
    (hp : p ∈ linesProblems lines) : p.diagnostic.code ≠ some .emptySource := by
  rcases List.mem_append.mp hp with hp | hp
  · obtain ⟨k, -, hLine⟩ := List.mem_filterMap.mp hp
    rw [lineProblem?, Option.bind_eq_bind, Option.bind_eq_some_iff] at hLine
    obtain ⟨line, -, hLine⟩ := hLine
    cases hStatement : line.statement with
    | unrecognized =>
      rw [hStatement, Option.some.injEq] at hLine
      simp [← hLine, Problem.diagnostic]
    | closeRegion =>
      rw [hStatement, Option.ite_none_left_eq_some, Option.some.injEq] at hLine
      simp [← hLine.2, Problem.diagnostic]
    | _ => simp [hStatement] at hLine
  · obtain ⟨i, -, hRegion⟩ := List.mem_filterMap.mp hp
    obtain ⟨region, -, rfl⟩ := Option.map_eq_some_iff.mp hRegion
    simp [Problem.diagnostic]

theorem ofDiagnostics_linesProblems (lines : List SourceLine) (source : String) :
    Failure.ofDiagnostics ((linesProblems lines).map Problem.diagnostic) source =
      .rejected ((linesProblems lines).map Problem.diagnostic) source := by
  refine if_neg ?_
  rw [reportsEmptySource, List.any_map, List.any_eq_true]
  rintro ⟨p, hp, hCode⟩
  exact code_ne_emptySource hp (of_decide_eq_true hCode)

theorem ofSource_strict_of_isClean {source : String} (hClean : IsClean (statements source)) :
    ofSource true source = ofSource false source := by
  by_cases hSource : IsBlank source
  · rw [ofSource_of_isBlank hSource, ofSource_of_isBlank hSource]
  · have hNone := linesProblems_sourceLines_eq_nil_iff.mpr hClean
    rw [ofSource_of_not_isBlank hSource, ofSource_of_not_isBlank hSource, if_neg (by simp [hNone]),
      if_neg (by simp), ofLines_graph_eq true false]

theorem ofSource_strict_of_not_isClean {source : String} (hSource : ¬ IsBlank source)
    (hClean : ¬ IsClean (statements source)) :
    ofSource true source = .error (linesProblems (sourceLines source.toList)) := by
  rw [ofSource_of_not_isBlank hSource, if_pos]
  exact ⟨rfl, fun hNone => hClean (linesProblems_sourceLines_eq_nil_iff.mp hNone)⟩

/-- Only a strict reading fails on a source that is not blank, and it reports all problems. -/
theorem eq_linesProblems_of_ofSource {strict : Bool} {source : String} (hSource : ¬ IsBlank source)
    {problems : List Problem} (hRead : ofSource strict source = .error problems) :
    strict = true ∧ problems = linesProblems (sourceLines source.toList) := by
  rw [ofSource_of_not_isBlank hSource] at hRead
  split at hRead
  · next hStrict =>
    cases hRead
    exact ⟨hStrict.1, rfl⟩
  · cases hRead

theorem readGraph_of_isBlank {source : String} (hBlank : IsBlank source) (s : Settings) :
    s.readGraph source = .error .emptyInput := by
  rw [Settings.readGraph, ofSource_of_isBlank hBlank]
  rfl

theorem readGraph_of_not_isBlank {source : String} (hSource : ¬ IsBlank source) (s : Settings) :
    s.readGraph source = (ofSource s.strict source).mapError fun problems =>
      .rejected (problems.map Problem.diagnostic) source := by
  rw [Settings.readGraph]
  cases hRead : ofSource s.strict source with
  | ok g => rfl
  | error problems =>
    obtain ⟨-, rfl⟩ := eq_linesProblems_of_ofSource hSource hRead
    exact congrArg Except.error (ofDiagnostics_linesProblems _ source)

theorem readGraph_eq_emptyInput_iff {s : Settings} {source : String} :
    s.readGraph source = .error .emptyInput ↔ IsBlank source := by
  constructor
  · intro h
    by_contra hSource
    rw [readGraph_of_not_isBlank hSource, mapError_eq_error_iff] at h
    obtain ⟨problems, -, hEmpty⟩ := h
    cases hEmpty
  · intro hBlank
    exact readGraph_of_isBlank hBlank s

theorem readGraph_eq_rejected_iff {s : Settings} {source text : String}
    {diagnostics : List Diagnostic} :
    s.readGraph source = .error (.rejected diagnostics text) ↔
      s.strict = true ∧ ¬ IsBlank source ∧ text = source ∧
        ∃ problems, ofSource true source = .error problems ∧
          diagnostics = problems.map Problem.diagnostic := by
  constructor
  · intro h
    have hSource : ¬ IsBlank source := by
      intro hBlank
      rw [readGraph_of_isBlank hBlank] at h
      cases h
    rw [readGraph_of_not_isBlank hSource, mapError_eq_error_iff] at h
    obtain ⟨problems, hRead, hRejected⟩ := h
    cases hRejected
    have hStrict := (eq_linesProblems_of_ofSource hSource hRead).1
    rw [hStrict] at hRead
    exact ⟨hStrict, hSource, rfl, problems, hRead, rfl⟩
  · rintro ⟨hStrict, hSource, rfl, problems, hRead, rfl⟩
    rw [readGraph_of_not_isBlank hSource, hStrict, hRead]
    rfl

/-- A source that cannot be read is empty or rejected. -/
theorem eq_of_readGraph_error {s : Settings} {source : String} {failure : Failure}
    (h : s.readGraph source = .error failure) :
    failure = .emptyInput ∨ ∃ diagnostics, failure = .rejected diagnostics source := by
  by_cases hSource : IsBlank source
  · rw [readGraph_of_isBlank hSource] at h
    cases h
    exact .inl rfl
  · rw [readGraph_of_not_isBlank hSource, mapError_eq_error_iff] at h
    obtain ⟨problems, -, rfl⟩ := h
    exact .inr ⟨_, rfl⟩

/-- **A strict reading gives the permissive graph or all problems of the lines.** It succeeds exactly
on clean lines. Blank sources are refused in both modes, and they alone are reported as empty. -/
theorem ofSource_strict (source : String) :
    (IsBlank source → ∀ strict, ∃ problem, ofSource strict source = .error [problem] ∧
      code? problem = some "E001") ∧
    (¬ IsBlank source →
      ((∃ g, ofSource true source = .ok g) ↔ IsClean (statements source)) ∧
      (∀ g, ofSource true source = .ok g → ofSource false source = .ok g) ∧
      ∀ problems, ofSource true source = .error problems →
        problems = linesProblems (sourceLines source.toList) ∧
        problems.filterMap code? = lineCodes (statements source)) ∧
    ∀ s : Settings,
      (s.readGraph source = .error .emptyInput ↔ IsBlank source) ∧
      (∀ diagnostics text, s.readGraph source = .error (.rejected diagnostics text) ↔
        s.strict = true ∧ ¬ IsBlank source ∧ text = source ∧
          ∃ problems, ofSource true source = .error problems ∧
            diagnostics = problems.map Problem.diagnostic) ∧
      ∀ failure, s.readGraph source = .error failure →
        failure = .emptyInput ∨ ∃ diagnostics, failure = .rejected diagnostics source := by
  refine ⟨fun hBlank strict => ⟨_, ofSource_of_isBlank hBlank strict, rfl⟩, fun hSource => ?_,
    fun s => ⟨readGraph_eq_emptyInput_iff, fun _ _ => readGraph_eq_rejected_iff,
      fun _ => eq_of_readGraph_error⟩⟩
  by_cases hClean : IsClean (statements source)
  · obtain ⟨g, hRead, -⟩ := ofSource_describes hSource
    rw [ofSource_strict_of_isClean hClean]
    refine ⟨⟨fun _ => hClean, fun _ => ⟨g, hRead⟩⟩, fun _ h => h, fun problems h => ?_⟩
    rw [hRead] at h
    cases h
  · rw [ofSource_strict_of_not_isClean hSource hClean]
    refine ⟨⟨fun ⟨_, h⟩ => (nomatch h), fun h => absurd h hClean⟩, fun _ h => (nomatch h),
      fun problems h => ?_⟩
    cases h
    rw [codes_linesProblems, map_statement_sourceLines]
    exact ⟨rfl, rfl⟩

/-- The first line is no statement, the second closes nothing, and two regions stay open. -/
def defective : String := "oops\nend\nsubgraph a\nsubgraph b\nend\nsubgraph c"

theorem ofSource_strict_defective :
    (∃ problem, ofSource true " \n" = .error [problem] ∧ code? problem = some "E001") ∧
      ∃ problems, ofSource true defective = .error problems ∧
        problems.filterMap code? = ["E100", "E102", "E101", "E101"] := by
  have hSource : ¬ IsBlank defective := by decide +kernel
  have hClean : ¬ IsClean (statements defective) := fun h => h.1 0 (by decide +kernel)
  refine ⟨(ofSource_strict " \n").1 (by decide +kernel) true, ?_⟩
  obtain ⟨hOk, -, hError⟩ := (ofSource_strict defective).2.1 hSource
  cases hRead : ofSource true defective with
  | ok g => exact absurd (hOk.mp ⟨g, hRead⟩) hClean
  | error problems =>
    refine ⟨problems, rfl, (hError problems hRead).2.trans ?_⟩
    decide +kernel

end Graph

end Diorama
