import Diorama.Proofs.Diagram.Characters
import Diorama.Proofs.Layout.Grid
import Diorama.Proofs.Number.Digits

/-!
# Regions without title

A region line that gives no title is named by the number of titles before it (`titleAt_of_isUntitled`).
Every new title adds to the number (`titlesBefore_lt`), so that the name is taken before only if a line
gives it as a title (`exists_gives_of_mem_titles`), as in `untitled_merged`. If no line gives it, the
region has its column to itself (`untitled_region`).
-/

namespace Diorama

/-! ### Region lines with and without title -/

theorem regionName_of_isBlank {title : Option RegionTitle} (h : ∀ t ∈ title, IsBlank t.text)
    (recorded : Nat) : regionName none title recorded = "sub" ++ toString recorded := by
  cases title with
  | none => simp [regionName]
  | some t =>
    have hTrim : Text.trim t.text.toList = [] := Text.trim_eq_nil_iff.mpr (h t rfl)
    cases t with
    | quoted text | bracketed text | remainder text =>
      rw [RegionTitle.text] at hTrim
      simp [regionName, hTrim]

namespace Statement

/-- A region line without identifier, and with blanks at most in the place of a title. -/
def IsUntitled : Statement → Prop
  | .openRegion identifier title => identifier = none ∧ ∀ t ∈ title, IsBlank t.text
  | _ => False

instance : DecidablePred IsUntitled := fun s =>
  match s with
  | .openRegion identifier title =>
    inferInstanceAs (Decidable (identifier = none ∧ ∀ t ∈ title, IsBlank t.text))
  | .closeRegion | .node .. | .edge .. | .blank | .comment | .header | .unrecognized =>
    inferInstanceAs (Decidable False)

/-- Line `i` gives its region this title. -/
def Gives (l : List Statement) (i : Nat) (title : String) : Prop :=
  titleAt l i = some title ∧ ∀ s ∈ l[i]?, ¬ s.IsUntitled

instance (l : List Statement) (i : Nat) (title : String) : Decidable (Gives l i title) :=
  inferInstanceAs (Decidable (_ ∧ _))

theorem gives_of_titleAt {l : List Statement} {i : Nat} {s : Statement} {title : String}
    (hAt : l[i]? = some s) (hTitled : ¬ s.IsUntitled) (hTitle : titleAt l i = some title) :
    Gives l i title := by
  refine ⟨hTitle, fun s' hs' => ?_⟩
  rw [hAt, Option.mem_some_iff] at hs'
  rwa [← hs']

/-- How many different titles the lines before line `k` have. -/
def titlesBefore (l : List Statement) (k : Nat) : Nat := (titles (l.take k)).eraseDups.length

theorem titleAt_of_isUntitled {l : List Statement} {k : Nat} {s : Statement} (hAt : l[k]? = some s)
    (h : s.IsUntitled) : titleAt l k = some ("sub" ++ toString (titlesBefore l k)) := by
  cases s with
  | openRegion identifier title =>
    obtain ⟨rfl, hTitle⟩ := h
    rw [titleAt, hAt, Option.bind_some, title?, regionName_of_isBlank hTitle, titlesBefore]
  | _ => cases h

/-- The number is found again in the name. -/
theorem eq_of_numbered_eq {m n : Nat} (h : "sub" ++ toString m = "sub" ++ toString n) : m = n := by
  have hDigits := congrArg String.toList h
  rw [String.toList_append, String.toList_append, List.append_cancel_left_eq,
    Nat.toString_eq_ofList_toDigits, Nat.toString_eq_ofList_toDigits, String.toList_ofList,
    String.toList_ofList] at hDigits
  rw [← natOfDigits_toDigits m, hDigits, natOfDigits_toDigits]

/-! ### Titles before a line -/

theorem prefix_titles_append (l rest : List Statement) : titles l <+: titles (l ++ rest) := by
  induction rest using List.reverseRecOn with
  | nil => simp
  | append_singleton rest s ih =>
    rw [← List.append_assoc, titles_concat]
    exact ih.trans (List.prefix_append _ _)

theorem prefix_titles_take (l : List Statement) {i k : Nat} (h : i ≤ k) :
    titles (l.take i) <+: titles (l.take k) := by
  obtain ⟨rest, hRest⟩ := List.take_prefix_take_left (l := l) h
  rw [← hRest]
  exact prefix_titles_append _ _

theorem titles_take_succ (l : List Statement) (k : Nat) :
    titles (l.take (k + 1)) = titles (l.take k) ++ (titleAt l k).toList := by
  rw [titleAt]
  cases hAt : l[k]? with
  | none =>
    rw [List.getElem?_eq_none_iff] at hAt
    rw [List.take_of_length_le (by omega), List.take_of_length_le hAt]
    simp
  | some s =>
    obtain ⟨hk, rfl⟩ := List.getElem?_eq_some_iff.mp hAt
    rw [List.take_succ_eq_append_getElem hk, titles_concat, Option.bind_some]

/-- The titles before a line are those of the lines before it. -/
theorem mem_titles_take {l : List Statement} {k : Nat} {title : String} :
    title ∈ titles (l.take k) ↔ ∃ i < k, titleAt l i = some title := by
  induction k with
  | zero => simp [titles]
  | succ k ih =>
    rw [titles_take_succ, List.mem_append, ih, Option.mem_toList]
    constructor
    · rintro (⟨i, hi, hTitle⟩ | hTitle)
      · exact ⟨i, Nat.lt_succ_of_lt hi, hTitle⟩
      · exact ⟨k, Nat.lt_succ_self k, hTitle⟩
    · rintro ⟨i, hi, hTitle⟩
      rcases Nat.lt_succ_iff_lt_or_eq.mp hi with hi | rfl
      · exact .inl ⟨i, hi, hTitle⟩
      · exact .inr hTitle

theorem mem_titles_of_titleAt {l : List Statement} {i : Nat} {title : String}
    (h : titleAt l i = some title) : title ∈ titles l := by
  have hMem : title ∈ titles (l.take (i + 1)) := mem_titles_take.mpr ⟨i, Nat.lt_succ_self i, h⟩
  rw [← List.take_append_drop (i + 1) l]
  exact (prefix_titles_append _ _).subset hMem

/-- A new title adds to the number of titles. -/
theorem titlesBefore_lt {l : List Statement} {i k : Nat} {title : String}
    (hTitle : titleAt l i = some title) (hNew : title ∉ titles (l.take i)) (hLt : i < k) :
    titlesBefore l i < titlesBefore l k := by
  obtain ⟨rest, hRest⟩ := prefix_titles_take l (Nat.succ_le_of_lt hLt)
  rw [titlesBefore, titlesBefore, ← hRest, titles_take_succ, hTitle, Option.toList_some,
    List.eraseDups_append, eraseDups_concat, if_neg hNew, List.length_append, List.length_append,
    List.length_singleton]
  omega

/-- **A number that is taken as a name was given as a title.** -/
theorem exists_gives_of_mem_titles {l : List Statement} {n : Nat} {k : Nat}
    (hCount : titlesBefore l k ≤ n) (h : "sub" ++ toString n ∈ titles (l.take k)) :
    ∃ i < k, Gives l i ("sub" ++ toString n) := by
  induction k using Nat.strongRecOn with
  | ind k ih =>
    obtain ⟨i, hi, hTitle⟩ := mem_titles_take.mp h
    obtain ⟨s, hAt, -⟩ := Option.bind_eq_some_iff.mp hTitle
    by_cases hUntitled : s.IsUntitled
    · -- The line has the number for its name, which is thus taken even before it.
      have hNumber := titleAt_of_isUntitled hAt hUntitled
      rw [hTitle, Option.some.injEq] at hNumber
      have hEq : titlesBefore l i = n := (eq_of_numbered_eq hNumber).symm
      by_cases hOld : "sub" ++ toString n ∈ titles (l.take i)
      · obtain ⟨j, hj, hGives⟩ := ih i hi hEq.le hOld
        exact ⟨j, hj.trans hi, hGives⟩
      · have hLt := titlesBefore_lt hTitle hOld hi
        omega
    · exact ⟨i, hi, gives_of_titleAt hAt hUntitled hTitle⟩

/-- A number that no line gives as a title is the name of one line at most. -/
theorem eq_of_titleAt_numbered {l : List Statement} {n : Nat}
    (hNot : ∀ i, ¬ Gives l i ("sub" ++ toString n)) {i k : Nat}
    (hi : titleAt l i = some ("sub" ++ toString n)) (hk : titleAt l k = some ("sub" ++ toString n)) :
    i = k := by
  have hLe {i k : Nat} (hi : titleAt l i = some ("sub" ++ toString n))
      (hk : titleAt l k = some ("sub" ++ toString n)) : k ≤ i := by
    by_contra hLt
    obtain ⟨s, hAt, -⟩ := Option.bind_eq_some_iff.mp hk
    by_cases hUntitled : s.IsUntitled
    · have hNumber := titleAt_of_isUntitled hAt hUntitled
      rw [hk, Option.some.injEq] at hNumber
      have hTaken := mem_titles_take.mpr ⟨i, not_le.mp hLt, hi⟩
      obtain ⟨j, -, hGives⟩ := exists_gives_of_mem_titles (eq_of_numbered_eq hNumber).ge hTaken
      exact hNot j hGives
    · exact hNot k (gives_of_titleAt hAt hUntitled hk)
  exact le_antisymm (hLe hk hi) (hLe hi hk)

/-- The region that line `k` opens is the innermost one around the last declaration of the node. -/
def StandsIn (l : List Statement) (k : Nat) (n : Node) : Prop :=
  ∃ m label, LastDeclares l m n.id label ∧ (openLines (l.take m)).getLast? = some k

/-- A title that one line has is the region of the nodes that stand in this line's region. -/
theorem IsDeclared.region_eq_iff {l : List Statement} {n : Node} (h : IsDeclared l n) {k : Nat}
    {name : String} (hName : ∀ i, titleAt l i = some name ↔ i = k) :
    n.region = some name ↔ StandsIn l k n := by
  obtain ⟨m, label, hLast, hNode⟩ := h
  have hRegion : n.region = regionAt l m := by rw [hNode, Node.ofLabel]
  rw [hRegion, regionAt, Option.bind_eq_some_iff]
  constructor
  · rintro ⟨i, hOpen, hTitle⟩
    obtain rfl := (hName i).mp hTitle
    exact ⟨m, label, hLast, hOpen⟩
  · rintro ⟨m', label', hLast', hOpen⟩
    obtain ⟨rfl, -⟩ := hLast.unique hLast'
    exact ⟨k, hOpen, (hName k).mpr rfl⟩

end Statement

/-! ### The column of a region without title -/

open Statement

theorem Node.column_eq_region_iff (n : Node) (name : String) :
    n.column = .region name ↔ n.region = some name := by
  rw [Node.column]
  cases n.region <;> simp

theorem region_mem_columnsOf {g : Graph} {name : String} (h : name ∈ g.regions) :
    .region name ∈ Layout.columnsOf g := by
  rw [Layout.columnsOf_eq]
  exact List.mem_append_left _ (List.mem_append_left _ (List.mem_map_of_mem h))

theorem openRegions_apply_of_isUntitled {r : Reading} {line : SourceLine} {s : Statement}
    (h : s.IsUntitled) :
    (r.apply line s).openRegions =
      ⟨"sub" ++ toString r.graph.regions.length, line.span⟩ :: r.openRegions := by
  cases s with
  | openRegion identifier title =>
    obtain ⟨rfl, hTitle⟩ := h
    rw [Reading.apply, regionName_of_isBlank hTitle]
  | _ => cases h

theorem regions_ofLines_take (strict : Bool) (source : String) (k : Nat) :
    (Reading.ofLines strict ((sourceLines source.toList).take k)).graph.regions =
      (titles ((statements source).take k)).eraseDups := by
  rw [(Reading.follows_ofLines strict _).graph.regions, List.map_take, map_statement_sourceLines]

/-- **A region without title** is named by the number of regions recorded before it. This name is
taken exactly if an earlier line gives it as a title. If no line gives it, no other line has it, and
the region has a column that holds the nodes standing in it and no others. -/
theorem untitled_region (strict : Bool) {source : String} {k : Nat} {line : SourceLine}
    (hLine : (sourceLines source.toList)[k]? = some line) (hUntitled : line.statement.IsUntitled) :
    ∃ before name, before = Reading.ofLines strict ((sourceLines source.toList).take k) ∧
      name = "sub" ++ toString before.graph.regions.length ∧
      (before.step line).openRegions = ⟨name, line.span⟩ :: before.openRegions ∧
      (name ∈ before.graph.regions ↔ ∃ i < k, Gives (statements source) i name) ∧
      ((∀ i, ¬ Gives (statements source) i name) →
        (∀ i, titleAt (statements source) i = some name ↔ i = k) ∧
        ∀ g, Graph.ofSource strict source = .ok g → ∀ spacing,
          (Layout.ofGraph spacing g).columns.count (.region name) = 1 ∧
          ∀ p ∈ (Layout.ofGraph spacing g).nodes,
            p.node.column = .region name ↔ StandsIn (statements source) k p.node) := by
  have hAt : (statements source)[k]? = some line.statement := by
    rw [← map_statement_sourceLines, List.getElem?_map, hLine, Option.map_some]
  have hRegions := regions_ofLines_take strict source k
  have hTitle := titleAt_of_isUntitled hAt hUntitled
  refine ⟨_, _, rfl, rfl, ?_, ?_, ?_⟩
  · rw [Reading.step, ← SourceLine.statement]
    exact openRegions_apply_of_isUntitled hUntitled
  · rw [hRegions, List.mem_eraseDups]
    refine ⟨exists_gives_of_mem_titles le_rfl, ?_⟩
    rintro ⟨i, hi, hGives, -⟩
    exact mem_titles_take.mpr ⟨i, hi, hGives⟩
  · rw [hRegions]
    intro hNot
    have hName (i : Nat) : titleAt (statements source) i =
        some ("sub" ++ toString (titlesBefore (statements source) k)) ↔ i = k := by
      refine ⟨fun hi => eq_of_titleAt_numbered hNot hi hTitle, ?_⟩
      rintro rfl
      exact hTitle
    refine ⟨hName, fun g hRead spacing => ⟨?_, fun p hp => ?_⟩⟩
    · refine List.count_eq_one_of_mem (Layout.nodup_columnsOf g) (region_mem_columnsOf ?_)
      rw [(Graph.describes_of_ofSource hRead).regions, List.mem_eraseDups]
      exact mem_titles_of_titleAt hTitle
    · have hNode := (Layout.perm_ofGraph spacing g).mem_iff.mp (List.mem_map_of_mem hp)
      rw [Node.column_eq_region_iff]
      exact ((Graph.describes_of_ofSource hRead).node _ hNode).region_eq_iff hName

/-- The second of two regions has blanks for a title. -/
def blankTitled : String := "subgraph a\nA[a]\nend\nsubgraph \"  \"\nB[b]\nend\nC[c]"

theorem untitled_region_blankTitled :
    ∃ line, (sourceLines blankTitled.toList)[3]? = some line ∧ line.statement.IsUntitled ∧
      (∀ i, titleAt (statements blankTitled) i = some "sub1" ↔ i = 3) ∧
      ∃ g, Graph.ofSource true blankTitled = .ok g ∧ ∀ spacing,
        (Layout.ofGraph spacing g).columns.count (.region "sub1") = 1 ∧
        ∀ p ∈ (Layout.ofGraph spacing g).nodes,
          p.node.column = .region "sub1" ↔ StandsIn (statements blankTitled) 3 p.node := by
  have hLine : (sourceLines blankTitled.toList)[3]? =
      some ⟨.ofLength 20 13, "subgraph \"  \"".toList⟩ := by decide +kernel
  have hUntitled : (Statement.ofLine "subgraph \"  \"".toList).IsUntitled := by decide +kernel
  obtain ⟨before, name, hBefore, hName, -, -, hOwn⟩ := untitled_region true hLine hUntitled
  have hCount : (Reading.ofLines true ((sourceLines blankTitled.toList).take 3)).graph.regions =
      ["a"] := by decide +kernel
  have hSub : name = "sub1" := by
    rw [hName, hBefore, hCount]
    decide
  subst hSub
  have hNot (i : Nat) : ¬ Gives (statements blankTitled) i "sub1" := by
    intro hGives
    obtain ⟨s, hAt, -⟩ := Option.bind_eq_some_iff.mp hGives.1
    have hLength : (statements blankTitled).length = 7 := by decide +kernel
    have hNone : ∀ i < 7, ¬ Gives (statements blankTitled) i "sub1" := by decide +kernel
    exact hNone i (hLength ▸ (List.getElem?_eq_some_iff.mp hAt).1) hGives
  obtain ⟨hTitles, hColumn⟩ := hOwn hNot
  have hGraph : (Graph.ofSource true blankTitled).toOption.map (·.regions) =
      some ["a", "sub1"] := by decide +kernel
  obtain ⟨g, hRead, -⟩ := exists_eq_ok_of_map hGraph
  exact ⟨_, hLine, hUntitled, hTitles, g, hRead, hColumn g hRead⟩

def numberTitled : String := "subgraph sub1\nA[a]\nend\nsubgraph\nB[b]\nend"

/-- A region without title takes the name of an earlier region that is titled like a number. -/
theorem untitled_merged :
    ∃ line before, (sourceLines numberTitled.toList)[3]? = some line ∧
      line.statement = .openRegion none none ∧
      before = Reading.ofLines true ((sourceLines numberTitled.toList).take 3) ∧
      before.graph.regions = ["sub1"] ∧
      (before.step line).openRegions = [⟨"sub1", line.span⟩] ∧
      ∃ g, Graph.ofSource true numberTitled = .ok g ∧
        Layout.columnsOf g = [.region "sub1", .unassigned] ∧
        g.nodes.map (fun n => (n.id, n.column)) =
          [("A", .region "sub1"), ("B", .region "sub1")] := by
  have hGraph : (Graph.ofSource true numberTitled).toOption.map (fun g =>
      (Layout.columnsOf g, g.nodes.map fun n => (n.id, n.column))) =
      some ([.region "sub1", .unassigned],
        [("A", .region "sub1"), ("B", .region "sub1")]) := by decide +kernel
  refine ⟨⟨.ofLength 23 8, "subgraph".toList⟩, _, by decide +kernel, by decide +kernel, rfl,
    by decide +kernel, by decide +kernel, ?_⟩
  obtain ⟨g, hRead, hBoth⟩ := exists_eq_ok_of_map hGraph
  obtain ⟨hColumns, hNodes⟩ := Prod.mk.inj hBoth
  exact ⟨g, hRead, hColumns, hNodes⟩

end Diorama
