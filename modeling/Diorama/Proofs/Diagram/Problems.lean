import Diorama.Proofs.Diagram.Description

/-!
# What is wrong with the lines of a diagram

A line is wrong if it is no statement, or an `end` that matches no line before it; and a region is
wrong if it stays open. `linesProblems` lists these problems in the order in which a strict reading
reports them, again as a property of the lines (`finish_ofLines`). `IsClean` lines are those without
problems (`linesProblems_eq_nil_iff`), and `lineCodes` are the codes of the problems
(`codes_linesProblems`).
-/

namespace Diorama.Reading

open Statement

/-! ### Problems of the lines -/

/-- What is wrong with line `k`. -/
def lineProblem? (lines : List SourceLine) (k : Nat) : Option Problem := do
  let line ← lines[k]?
  match line.statement with
  | .unrecognized => some (.unrecognizedStatement (String.ofList line.text) line.span)
  | .closeRegion =>
    if ∃ i < k, Matches (lines.map SourceLine.statement) i k then none
    else some (.unmatchedEnd line.span)
  | _ => none

def unclosedRegions (lines : List SourceLine) : List Problem :=
  (openLines (lines.map SourceLine.statement)).filterMap fun i =>
    (openRegionAt lines i).map fun region => .unclosedRegion region.name region.opener

/-- The problems of all lines in their order, then the regions that stay open, the outermost
first. -/
def linesProblems (lines : List SourceLine) : List Problem :=
  (List.range lines.length).filterMap (lineProblem? lines) ++ unclosedRegions lines

/-- Every line is a statement, every `end` closes a region and every region is closed. -/
def IsClean (l : List Statement) : Prop :=
  (∀ k : Nat, l[k]? ≠ some .unrecognized) ∧
    (∀ k : Nat, l[k]? = some .closeRegion → ∃ i, Matches l i k) ∧ openLines l = []

theorem lineProblem?_append {lines rest : List SourceLine} {k : Nat} (hk : k < lines.length) :
    lineProblem? (lines ++ rest) k = lineProblem? lines k := by
  have hMatch : (∃ i < k, Matches ((lines ++ rest).map SourceLine.statement) i k) ↔
      ∃ i < k, Matches (lines.map SourceLine.statement) i k := by
    rw [List.map_append]
    exact exists_congr fun i => and_congr_right fun _ => matches_append (by simpa using hk)
  simp only [lineProblem?, List.getElem?_append_left hk, hMatch]

theorem exists_lt_matches_iff {l : List Statement} {k : Nat} :
    (∃ i < k, Matches l i k) ↔ ∃ i, Matches l i k :=
  ⟨fun ⟨i, _, h⟩ => ⟨i, h⟩, fun ⟨i, h⟩ => ⟨i, h.1, h⟩⟩

theorem filterMap_openRegionAt_eq_nil_iff {lines : List SourceLine} :
    (openLines (lines.map SourceLine.statement)).filterMap (openRegionAt lines) = [] ↔
      openLines (lines.map SourceLine.statement) = [] := by
  rw [List.filterMap_eq_nil_iff, List.eq_nil_iff_forall_not_mem]
  refine forall_congr' fun i => forall_congr' fun hi => ?_
  obtain ⟨region, hRegion, -⟩ := exists_openRegionAt hi
  simp [hRegion]

theorem Follows.openRegions_eq_nil_iff {lines : List SourceLine} {r : Reading}
    (h : Follows lines r) :
    r.openRegions = [] ↔ openLines (lines.map SourceLine.statement) = [] := by
  rw [h.openRegions, List.reverse_eq_nil_iff, filterMap_openRegionAt_eq_nil_iff]

/-- What the last line does wrong is seen from the regions open before it. -/
theorem Follows.lineProblem?_length {lines : List SourceLine} {r : Reading} (h : Follows lines r)
    (line : SourceLine) :
    lineProblem? (lines ++ [line]) lines.length =
      match line.statement with
      | .unrecognized => some (.unrecognizedStatement (String.ofList line.text) line.span)
      | .closeRegion => if r.openRegions = [] then some (.unmatchedEnd line.span) else none
      | _ => none := by
  rw [lineProblem?, List.getElem?_concat_length]
  show (match line.statement with
    | .unrecognized => _
    | .closeRegion => _
    | _ => _) = _
  cases hStatement : line.statement with
  | closeRegion =>
    have hAt : ((lines ++ [line]).map SourceLine.statement)[lines.length]?.any closes = true := by
      rw [List.getElem?_map, List.getElem?_concat_length, Option.map_some, hStatement]
      rfl
    have hOpen : (∃ i < lines.length, Matches ((lines ++ [line]).map SourceLine.statement) i
        lines.length) ↔ r.openRegions ≠ [] := by
      rw [exists_lt_matches_iff, exists_matches_iff hAt, ← List.map_take, List.take_left' rfl,
        ne_eq, ← h.openRegions_eq_nil_iff]
    simp only [hOpen, ne_eq, ite_not]
  | _ => rfl

/-! ### Problems of a reading -/

theorem isStrict_report (r : Reading) (p : Problem) : (r.report p).isStrict = r.isStrict := by
  unfold report
  split <;> rfl

theorem problems_report (r : Reading) (p : Problem) :
    (r.report p).problems = r.problems ++ if r.isStrict then [p] else [] := by
  unfold report
  cases r.isStrict <;> simp

theorem isStrict_step (r : Reading) (line : SourceLine) :
    (r.step line).isStrict = r.isStrict := by
  unfold step apply
  cases Statement.ofLine line.text with
  | closeRegion =>
    cases r.openRegions with
    | nil => exact isStrict_report r _
    | cons region outer => rfl
  | unrecognized => exact isStrict_report r _
  | _ => rfl

theorem isStrict_ofLines (strict : Bool) (lines : List SourceLine) :
    (ofLines strict lines).isStrict = strict := by
  induction lines using List.reverseRecOn with
  | nil => rfl
  | append_singleton lines line ih => rw [ofLines_concat, isStrict_step, ih]

theorem Follows.problems_step {lines : List SourceLine} {r : Reading} (h : Follows lines r)
    (line : SourceLine) : (r.step line).problems = r.problems ++
      if r.isStrict then (lineProblem? (lines ++ [line]) lines.length).toList else [] := by
  rw [h.lineProblem?_length]
  show (r.apply line line.statement).problems = _
  cases hStatement : line.statement with
  | closeRegion =>
    unfold apply
    cases r.openRegions with
    | nil => exact problems_report r _
    | cons region outer => simp
  | unrecognized => exact problems_report r _
  | _ => simp [apply, Graph.insert]

/-- **A strict reading meets the problems of its lines, a permissive one none.** -/
theorem problems_ofLines (strict : Bool) (lines : List SourceLine) :
    (ofLines strict lines).problems =
      if strict then (List.range lines.length).filterMap (lineProblem? lines) else [] := by
  induction lines using List.reverseRecOn with
  | nil => cases strict <;> rfl
  | append_singleton lines line ih =>
    have hOld : (List.range lines.length).filterMap (lineProblem? (lines ++ [line])) =
        (List.range lines.length).filterMap (lineProblem? lines) :=
      List.filterMap_congr fun k hk => lineProblem?_append (List.mem_range.mp hk)
    rw [ofLines_concat, (follows_ofLines strict lines).problems_step, ih, isStrict_ofLines,
      List.length_append, List.length_singleton, List.range_succ, List.filterMap_append, hOld]
    cases strict with
    | false => rfl
    | true => cases hLast : lineProblem? (lines ++ [line]) lines.length <;> simp [hLast]

theorem isStrict_foldr_report (r : Reading) (problem : OpenRegion → Problem)
    (regions : List OpenRegion) :
    (regions.foldr (fun region r => r.report (problem region)) r).isStrict = r.isStrict := by
  induction regions with
  | nil => rfl
  | cons region regions ih => rw [List.foldr_cons, isStrict_report, ih]

theorem problems_foldr_report (r : Reading) (problem : OpenRegion → Problem)
    (regions : List OpenRegion) :
    (regions.foldr (fun region r => r.report (problem region)) r).problems =
      r.problems ++ if r.isStrict then regions.reverse.map problem else [] := by
  induction regions with
  | nil => simp
  | cons region regions ih =>
    rw [List.foldr_cons, problems_report, isStrict_foldr_report, ih]
    cases r.isStrict <;> simp

theorem problems_reportOpen_ofLines (strict : Bool) (lines : List SourceLine) :
    (ofLines strict lines).reportOpen.problems = if strict then linesProblems lines else [] := by
  rw [reportOpen, problems_foldr_report, problems_ofLines, isStrict_ofLines,
    (follows_ofLines strict lines).openRegions, List.reverse_reverse, List.map_filterMap]
  cases strict <;> rfl

/-- **A strict reading succeeds if nothing is wrong, and a permissive one always.** -/
theorem finish_ofLines (strict : Bool) (lines : List SourceLine) :
    (ofLines strict lines).finish =
      if strict ∧ linesProblems lines ≠ [] then .error (linesProblems lines)
      else .ok (ofLines strict lines).graph := by
  rw [finish, problems_reportOpen_ofLines]
  cases strict with
  | false => rfl
  | true => by_cases hProblems : linesProblems lines = [] <;> simp [hProblems]

/-! ### Clean lines -/

theorem lineProblem?_eq_none_iff {lines : List SourceLine} {k : Nat} :
    lineProblem? lines k = none ↔
      (lines.map SourceLine.statement)[k]? ≠ some .unrecognized ∧
        ((lines.map SourceLine.statement)[k]? = some .closeRegion →
          ∃ i, Matches (lines.map SourceLine.statement) i k) := by
  rw [← exists_lt_matches_iff, lineProblem?, List.getElem?_map]
  cases lines[k]? with
  | none => simp
  | some line =>
    rw [Option.map_some]
    cases hStatement : line.statement with
    | closeRegion => simp [hStatement]
    | _ => simp [hStatement]

theorem linesProblems_eq_nil_iff {lines : List SourceLine} :
    linesProblems lines = [] ↔ IsClean (lines.map SourceLine.statement) := by
  have hLines : (List.range lines.length).filterMap (lineProblem? lines) = [] ↔
      ∀ k, lineProblem? lines k = none := by
    rw [List.filterMap_eq_nil_iff]
    refine forall_congr' fun k => ⟨fun h => ?_, fun h _ => h⟩
    by_cases hk : k < lines.length
    · exact h (List.mem_range.mpr hk)
    · rw [lineProblem?, List.getElem?_eq_none (by omega)]
      rfl
  have hRegions : unclosedRegions lines = [] ↔
      openLines (lines.map SourceLine.statement) = [] := by
    rw [unclosedRegions, ← List.map_filterMap, List.map_eq_nil_iff,
      filterMap_openRegionAt_eq_nil_iff]
  rw [linesProblems, List.append_eq_nil_iff, hLines, hRegions, IsClean, ← and_assoc,
    ← forall_and]
  simp only [lineProblem?_eq_none_iff]

/-! ### Codes -/

def code? (p : Problem) : Option String := p.diagnostic.code.map ErrorCode.text

/-- The code that line `k` is reported with. -/
def lineCode? (l : List Statement) (k : Nat) : Option String :=
  match l[k]? with
  | some .unrecognized => some "E100"
  | some .closeRegion => if ∃ i < k, Matches l i k then none else some "E102"
  | _ => none

/-- The codes that lines are reported with. -/
def lineCodes (l : List Statement) : List String :=
  (List.range l.length).filterMap (lineCode? l) ++ List.replicate (openLines l).length "E101"

theorem bind_code?_lineProblem? (lines : List SourceLine) (k : Nat) :
    (lineProblem? lines k).bind code? = lineCode? (lines.map SourceLine.statement) k := by
  rw [lineProblem?, lineCode?, List.getElem?_map]
  cases lines[k]? with
  | none => rfl
  | some line =>
    rw [Option.map_some, Option.bind_eq_bind, Option.bind_some]
    cases hStatement : line.statement with
    | closeRegion =>
      by_cases hMatch : ∃ i < k, Matches (lines.map SourceLine.statement) i k
      · simp only [if_pos hMatch, Option.bind_none]
      · simp only [if_neg hMatch]
        rfl
    | _ => rfl

theorem codes_linesProblems (lines : List SourceLine) :
    (linesProblems lines).filterMap code? = lineCodes (lines.map SourceLine.statement) := by
  have hRegions : (unclosedRegions lines).filterMap code? =
      (openLines (lines.map SourceLine.statement)).filterMap (some ∘ fun _ => "E101") := by
    rw [unclosedRegions, List.filterMap_filterMap]
    refine List.filterMap_congr fun i hi => ?_
    obtain ⟨region, hRegion, -⟩ := exists_openRegionAt hi
    rw [hRegion]
    rfl
  rw [linesProblems, List.filterMap_append, List.filterMap_filterMap, hRegions,
    List.filterMap_eq_map, List.map_const', lineCodes, List.length_map]
  simp only [bind_code?_lineProblem?]

end Diorama.Reading
