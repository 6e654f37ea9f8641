import Diorama.Proofs.Diagram.Grammar
import Diorama.Proofs.Diagram.Untitled

/-!
# Graphs that are read

Every path on which a text comes into a graph keeps a promise: identifiers are words, labels, names and
titles are trimmed and stay on one line, and whatever a node says of its region is recorded
(`Graph.IsWellFormed`). It rests on the parts of lines (`isIdentifier_of_mem_statements`), on how a label
is split (`isNamed_ofLabel`) and on how a region gets its title (`isTitle_regionName`). Readers in both
modes keep it, so that no layout of what is read has a column that is not recorded
(`ofSource_isWellFormed`).
-/

namespace Diorama

/-! ### What is promised -/

/-- A text on one line, without blanks at its ends. -/
structure IsTrimmed (text : String) : Prop where
  trim : Text.trim text.toList = text.toList
  lineFeed : '\n' ∉ text.toList

structure IsTitle (title : String) : Prop extends IsTrimmed title where
  ne_empty : title ≠ ""

namespace Node

/-- The name is the label, or an end of it if the node has a kind. -/
def IsNamed (n : Node) : Prop :=
  match n.kind with
  | none => n.name = n.label
  | some _ => IsTitle n.name ∧ n.name.toList <:+ n.label.toList

structure IsWellFormed (n : Node) : Prop where
  id : Statement.IsIdentifier n.id.toList
  label : IsTrimmed n.label
  closer : ∀ c ∈ n.label.toList, Statement.closesLabel c = false
  name : n.IsNamed

end Node

structure Edge.IsWellFormed (e : Edge) : Prop where
  source : Statement.IsIdentifier e.source.toList
  target : Statement.IsIdentifier e.target.toList
  label : ∀ label ∈ e.label, IsTrimmed label ∧ '|' ∉ label.toList

structure Graph.IsWellFormed (g : Graph) : Prop where
  node : ∀ n ∈ g.nodes, n.IsWellFormed
  ids : (g.nodes.map Node.id).Nodup
  edge : ∀ e ∈ g.edges, e.IsWellFormed
  title : ∀ title ∈ g.regions, IsTitle title ∧ g.regions.count title = 1
  recorded : ∀ n ∈ g.nodes, ∀ title ∈ n.region, title ∈ g.regions

/-! ### Names and titles -/

theorem isTrimmed_ofList_trim {body : List Char}
    (hLine : '\n' ∉ (String.ofList (Text.trim body)).toList) :
    IsTrimmed (String.ofList (Text.trim body)) := by
  refine ⟨?_, hLine⟩
  rw [String.toList_ofList, Text.trim_trim]

theorem ofList_ne_empty {text : List Char} (h : text ≠ []) : String.ofList text ≠ "" := by
  intro hEmpty
  have hList := congrArg String.toList hEmpty
  rw [String.toList_ofList] at hList
  exact h hList

/-- The name of a node is an end of its label, since nothing is trimmed away behind it. -/
theorem isNamed_ofLabel {label : String} (hLabel : IsTrimmed label) (id : String)
    (region : Option String) : (Node.ofLabel id label region).IsNamed := by
  rw [Node.IsNamed, Node.ofLabel]
  rcases splitKind_eq_or label with hSplit | ⟨kind, text, hText, hNe, hSplit⟩
  · rw [hSplit]
  · have hSuffix := Text.trim_suffix_of_suffix hText hLabel.trim
    have hLine : '\n' ∉ (String.ofList (Text.trim text)).toList := by
      rw [String.toList_ofList]
      exact fun hc => hLabel.lineFeed (hSuffix.subset hc)
    rw [hSplit]
    refine ⟨⟨isTrimmed_ofList_trim hLine, ofList_ne_empty hNe⟩, ?_⟩
    rw [String.toList_ofList]
    exact hSuffix

theorem isTitle_numbered (recorded : Nat) : IsTitle ("sub" ++ toString recorded) := by
  have hList : ("sub" ++ toString recorded).toList = ['s', 'u', 'b'] ++ Nat.toDigits 10 recorded := by
    rw [String.toList_append, Nat.toString_eq_ofList_toDigits,
      String.toList_ofList (l := Nat.toDigits 10 recorded)]
    rfl
  have hWord : ∀ c ∈ ['s', 'u', 'b'] ++ Nat.toDigits 10 recorded, Text.isBlank c = false := by
    intro c hc
    rcases List.mem_append.mp hc with hc | hc
    · simp only [List.mem_cons, List.not_mem_nil, or_false] at hc
      rcases hc with rfl | rfl | rfl <;> decide
    · exact isBlank_of_isDigit (isDigit_of_mem_toDigits hc)
  refine ⟨⟨?_, ?_⟩, ?_⟩
  · rw [hList, Text.trim_of_forall hWord]
  · rw [hList]
    exact fun hc => absurd (hWord _ hc) (by decide)
  · intro hEmpty
    rw [hEmpty] at hList
    cases hList

theorem isTitle_regionName {identifier : Option String} {title : Option RegionTitle}
    (h : ∀ t ∈ (Statement.openRegion identifier title).texts, '\n' ∉ t.toList) (recorded : Nat) :
    IsTitle (regionName identifier title recorded) := by
  have hLine := lineFeed_not_mem_regionName h recorded
  rcases regionName_eq_or identifier title recorded with ⟨t, -, hNe, hName⟩ | hName
  · rw [hName] at hLine ⊢
    exact ⟨isTrimmed_ofList_trim hLine, ofList_ne_empty hNe⟩
  · rw [hName]
    exact isTitle_numbered recorded

/-! ### Statements of a source -/

namespace Statement

variable {source : String} {k : Nat}

theorem exists_ofTrimmed_eq {s : Statement} (hAt : (statements source)[k]? = some s) :
    ∃ text, ofTrimmed text = s := by
  obtain ⟨line, -, hLine⟩ := List.mem_map.mp (List.mem_of_getElem? hAt)
  exact ⟨Text.trim line, hLine⟩

theorem isTrimmed_label {id label : String}
    (hAt : (statements source)[k]? = some (.node id label)) : IsTrimmed label := by
  obtain ⟨text, hText⟩ := exists_ofTrimmed_eq hAt
  obtain ⟨-, p, -, -, rfl⟩ := ofTrimmed_eq_node_iff.mp hText
  exact isTrimmed_ofList_trim (lineFeed_not_mem_texts hAt (by simp [texts]))

theorem isWellFormed_node {id label : String}
    (hAt : (statements source)[k]? = some (.node id label)) (region : Option String) :
    (Node.ofLabel id label region).IsWellFormed := by
  have hLabel := isTrimmed_label hAt
  have hNamed := isNamed_ofLabel hLabel id region
  obtain ⟨text, hText⟩ := exists_ofTrimmed_eq hAt
  obtain ⟨-, p, -, rfl, rfl⟩ := ofTrimmed_eq_node_iff.mp hText
  refine ⟨?_, hLabel, ?_, hNamed⟩
  · show IsIdentifier (String.ofList p.id).toList
    rw [String.toList_ofList]
    exact p.isIdentifier_id
  · intro c hc
    have hBody : c ∈ p.body := by
      refine Text.mem_of_mem_trim ?_
      rwa [← String.toList_ofList (l := Text.trim p.body)]
    simpa using p.isRun_body.2 c hBody

theorem isWellFormed_edge {e : Edge}
    (hAt : (statements source)[k]? = some (.edge e.source e.target e.label)) : e.IsWellFormed := by
  have hTexts := fun t => lineFeed_not_mem_texts (t := t) hAt
  obtain ⟨text, hText⟩ := exists_ofTrimmed_eq hAt
  obtain ⟨-, -, p, -, hSource, hTarget, hLabel⟩ := ofTrimmed_eq_edge_iff.mp hText
  refine ⟨?_, ?_, fun label hMem => ?_⟩
  · rw [hSource, String.toList_ofList]
    exact p.isIdentifier_source
  · rw [hTarget, String.toList_ofList]
    exact p.isIdentifier_target
  · have hLine := hTexts label (by simp [texts, Option.mem_def.mp hMem])
    rw [hLabel] at hMem
    obtain ⟨bar, -, rfl⟩ := Option.map_eq_some_iff.mp hMem
    refine ⟨isTrimmed_ofList_trim hLine, ?_⟩
    rw [String.toList_ofList]
    exact fun hc => absurd (bar.isRun_body.2 _ (Text.mem_of_mem_trim hc)) (by decide)

theorem isTitle_titleAt {title : String} (h : titleAt (statements source) k = some title) :
    IsTitle title := by
  obtain ⟨s, hAt, hTitle⟩ := Option.bind_eq_some_iff.mp h
  cases s with
  | openRegion identifier shown =>
    cases hTitle
    exact isTitle_regionName (fun t => lineFeed_not_mem_texts hAt) _
  | _ => cases hTitle

theorem exists_titleAt_of_mem_titles {l : List Statement} {title : String} (h : title ∈ titles l) :
    ∃ i, titleAt l i = some title := by
  rw [← List.take_length (l := l)] at h
  obtain ⟨i, -, hTitle⟩ := mem_titles_take.mp h
  exact ⟨i, hTitle⟩

end Statement

/-! ### Graphs of a source -/

namespace Graph

open Statement

variable {source : String} {g : Graph}

section

variable (h : Describes (statements source) g)

include h

theorem isWellFormed_of_mem_nodes {n : Node} (hn : n ∈ g.nodes) :
    n.IsWellFormed ∧ ∀ title ∈ n.region, title ∈ g.regions := by
  obtain ⟨k, label, hLast, hNode⟩ := h.node n hn
  refine ⟨?_, fun title hTitle => ?_⟩
  · rw [hNode]
    exact isWellFormed_node hLast.1 _
  · rw [hNode] at hTitle
    obtain ⟨i, -, hTitle⟩ := Option.bind_eq_some_iff.mp hTitle
    rw [h.regions, List.mem_eraseDups]
    exact mem_titles_of_titleAt hTitle

theorem isWellFormed_of_mem_edges {e : Edge} (he : e ∈ g.edges) : e.IsWellFormed := by
  rw [h.edges] at he
  obtain ⟨s, hs, hEdge⟩ := List.mem_filterMap.mp he
  obtain ⟨k, hAt⟩ := List.getElem?_of_mem hs
  cases s with
  | edge source target label =>
    cases hEdge
    exact isWellFormed_edge hAt
  | _ => cases hEdge

theorem isTitle_of_mem_regions {title : String} (hTitle : title ∈ g.regions) : IsTitle title := by
  rw [h.regions, List.mem_eraseDups] at hTitle
  obtain ⟨i, hAt⟩ := exists_titleAt_of_mem_titles hTitle
  exact isTitle_titleAt hAt

theorem isWellFormed_of_describes : g.IsWellFormed where
  node _ hn := (isWellFormed_of_mem_nodes h hn).1
  ids := g.ids_nodup
  edge _ he := isWellFormed_of_mem_edges h he
  title _ hTitle :=
    ⟨isTitle_of_mem_regions h hTitle, List.count_eq_one_of_mem g.regions_nodup hTitle⟩
  recorded _ hn := (isWellFormed_of_mem_nodes h hn).2

end

/-- Without nodes that name other regions, the columns are the recorded ones and the last one. -/
theorem IsWellFormed.columnsOf_eq (hGraph : g.IsWellFormed) :
    Layout.columnsOf g = g.regions.map .region ++ [.unassigned] := by
  have hNone : Layout.unrecordedRegions g = [] := by
    rw [Layout.unrecordedRegions, List.filter_eq_nil_iff.mpr]
    · rfl
    · intro title hTitle
      obtain ⟨n, hn, hRegion⟩ := List.mem_filterMap.mp hTitle
      simpa using hGraph.recorded n hn title hRegion
  rw [Layout.columnsOf_eq, hNone, List.map_nil, List.append_nil]

/-- **Every graph that is read is well-formed**, in both modes. The title of every region line is
recorded once, and the columns of a layout are the recorded regions and the column of the other nodes. -/
theorem ofSource_isWellFormed {strict : Bool} (hRead : ofSource strict source = .ok g) :
    g.IsWellFormed ∧
      (∀ title ∈ titles (statements source), g.regions.count title = 1) ∧
      ∀ spacing, (Layout.ofGraph spacing g).columns = g.regions.map .region ++ [.unassigned] := by
  have hDescribes := describes_of_ofSource hRead
  have hGraph := isWellFormed_of_describes hDescribes
  refine ⟨hGraph, fun title hTitle => ?_, fun _ => hGraph.columnsOf_eq⟩
  rw [← List.mem_eraseDups, ← hDescribes.regions] at hTitle
  exact (hGraph.title title hTitle).2

/-- Words that are keywords elsewhere, blanks around every text, a blank label and a region without
title. -/
def crowded : String :=
  "subgraph\nend [ service: \u00e9 api\u00a0) x\nEND\nsubgraph \" x  y \"\r\ngraph(pod:]\nend -.->| | graph y\nend"

theorem ofSource_isWellFormed_crowded :
    ∃ g, ofSource true crowded = .ok g ∧ g.IsWellFormed ∧
      g.nodes = [⟨"end", "service: \u00e9 api", some .service, "\u00e9 api", some "sub0"⟩,
        ⟨"graph", "pod:", none, "pod:", some "x  y"⟩] ∧
      g.edges = [⟨"end", "graph", some ""⟩] ∧
      (Layout.ofGraph .standard g).columns = [.region "sub0", .region "x  y", .unassigned] := by
  have hGraph : (ofSource true crowded).toOption.map (fun g => (g.nodes, g.edges, g.regions)) =
      some ([⟨"end", "service: \u00e9 api", some .service, "\u00e9 api", some "sub0"⟩,
        ⟨"graph", "pod:", none, "pod:", some "x  y"⟩], [⟨"end", "graph", some ""⟩],
        ["sub0", "x  y"]) := by
    decide +kernel
  obtain ⟨g, hRead, hParts⟩ := exists_eq_ok_of_map hGraph
  obtain ⟨hNodes, hParts⟩ := Prod.mk.inj hParts
  obtain ⟨hEdges, hRegions⟩ := Prod.mk.inj hParts
  obtain ⟨hWell, -, hColumns⟩ := ofSource_isWellFormed hRead
  refine ⟨g, hRead, hWell, hNodes, hEdges, ?_⟩
  rw [hColumns, hRegions]
  rfl

end Graph

end Diorama
