import Mathlib.Data.List.Induction
import Diorama.Diagram.Reading
import Diorama.Proofs.Diagram.Brackets
import Diorama.Proofs.List.Repetition
import Diorama.Proofs.Text.Lines

/-!
# What the lines of a diagram say

`Describes l g` reads a graph off its lines without any state: where a node is declared, and where
it is declared last, which titles the regions have, and which region is open around a line are
properties of the list `l`. `Describes.unique` shows that nothing is left open.

A reading follows its lines: after every prefix of them its graph is the one that they describe, and
its open regions are the open lines (`follows_ofLines`), whether it is strict or not.
-/

namespace Diorama

namespace Statement

def nodeId? : Statement → Option String
  | .node id _ => some id
  | _ => none

def edgeOf? : Statement → Option Edge
  | .edge source target label => some ⟨source, target, label⟩
  | _ => none

/-- The title of a region line before which `recorded` different titles occur. -/
def title? (recorded : Nat) : Statement → Option String
  | .openRegion identifier title => some (regionName identifier title recorded)
  | _ => none

/-- The titles of all region lines, in their order. -/
def titles (l : List Statement) : List String :=
  l.foldl (fun found s => found ++ (s.title? found.eraseDups.length).toList) []

def titleAt (l : List Statement) (i : Nat) : Option String :=
  l[i]?.bind (title? (titles (l.take i)).eraseDups.length)

/-- The title of the last line before line `k` that opens a region which no line before line `k`
closes. -/
def regionAt (l : List Statement) (k : Nat) : Option String :=
  (openLines (l.take k)).getLast?.bind (titleAt l)

/-- Line `k` declares a node, and no later line declares it again. -/
def LastDeclares (l : List Statement) (k : Nat) (id label : String) : Prop :=
  l[k]? = some (.node id label) ∧ ∀ j label', k < j → l[j]? ≠ some (.node id label')

/-- The node is what its last declaration says. -/
def IsDeclared (l : List Statement) (n : Node) : Prop :=
  ∃ k label, LastDeclares l k n.id label ∧ n = .ofLabel n.id label (regionAt l k)

/-- The graph of some lines. -/
structure Describes (l : List Statement) (g : Graph) : Prop where
  ids : g.nodes.map Node.id = (l.filterMap nodeId?).eraseDups
  node : ∀ n ∈ g.nodes, IsDeclared l n
  edges : g.edges = l.filterMap edgeOf?
  regions : g.regions = (titles l).eraseDups

theorem LastDeclares.unique {l : List Statement} {k k' : Nat} {id label label' : String}
    (h : LastDeclares l k id label) (h' : LastDeclares l k' id label') :
    k = k' ∧ label = label' := by
  rcases Nat.lt_trichotomy k k' with hLt | rfl | hLt
  · exact absurd h'.1 (h.2 _ _ hLt)
  · have hSame := h.1.symm.trans h'.1
    simp only [Option.some.injEq, Statement.node.injEq, true_and] at hSame
    exact ⟨rfl, hSame⟩
  · exact absurd h.1 (h'.2 _ _ hLt)

theorem IsDeclared.unique {l : List Statement} {n n' : Node} (h : IsDeclared l n)
    (h' : IsDeclared l n') (hId : n.id = n'.id) : n = n' := by
  obtain ⟨k, label, hLast, hEq⟩ := h
  obtain ⟨k', label', hLast', hEq'⟩ := h'
  rw [hId] at hLast
  obtain ⟨rfl, rfl⟩ := hLast.unique hLast'
  rw [hEq, hEq', hId]

/-- **The lines determine the graph.** -/
theorem Describes.unique {l : List Statement} {g g' : Graph} (h : Describes l g)
    (h' : Describes l g') : g = g' := by
  have hNodes : g.nodes = g'.nodes := by
    have hIds := h.ids.trans h'.ids.symm
    have hLength : g.nodes.length = g'.nodes.length := by
      simpa using congrArg List.length hIds
    refine List.ext_getElem hLength fun i hi hi' => ?_
    have hId := congrArg (·[i]?) hIds
    refine (h.node _ (List.getElem_mem hi)).unique (h'.node _ (List.getElem_mem hi')) ?_
    simpa [hi, hi'] using hId
  have hEdges := h.edges.trans h'.edges.symm
  have hRegions := h.regions.trans h'.regions.symm
  cases g
  cases g'
  simp only [Graph.mk.injEq]
  exact ⟨hNodes, hEdges, hRegions⟩

/-! ### One more line -/

theorem filterMap_concat_none {α : Type} {f : Statement → Option α} {s : Statement} (h : f s = none)
    (l : List Statement) : (l ++ [s]).filterMap f = l.filterMap f := by
  rw [List.filterMap_append, List.filterMap_cons_none h, List.filterMap_nil, List.append_nil]

theorem titles_concat (l : List Statement) (s : Statement) :
    titles (l ++ [s]) = titles l ++ (s.title? (titles l).eraseDups.length).toList := by
  rw [titles, List.foldl_append]
  rfl

theorem titles_concat_of_plain {l : List Statement} {s : Statement} (hOpens : s.opens = false) :
    titles (l ++ [s]) = titles l := by
  rw [titles_concat]
  cases s with
  | openRegion => cases hOpens
  | _ => simp [title?]

theorem titleAt_append {l rest : List Statement} {i : Nat} (hi : i < l.length) :
    titleAt (l ++ rest) i = titleAt l i := by
  rw [titleAt, titleAt, List.getElem?_append_left hi, List.take_append_of_le_length hi.le]

theorem titleAt_length (l : List Statement) (s : Statement) :
    titleAt (l ++ [s]) l.length = s.title? (titles l).eraseDups.length := by
  rw [titleAt, List.getElem?_concat_length, List.take_left' rfl, Option.bind_some]

theorem lt_length_of_mem_openLines {l : List Statement} {i : Nat} (hi : i ∈ openLines l) :
    i < l.length :=
  List.mem_range.mp (List.mem_of_mem_filter hi)

theorem regionAt_append {l rest : List Statement} {k : Nat} (hk : k ≤ l.length) :
    regionAt (l ++ rest) k = regionAt l k := by
  rw [regionAt, regionAt, List.take_append_of_le_length hk]
  cases hLast : (openLines (l.take k)).getLast? with
  | none => rfl
  | some i =>
    have hi := lt_length_of_mem_openLines (List.mem_of_getLast? hLast)
    rw [List.length_take] at hi
    exact titleAt_append (by omega)

theorem LastDeclares.lt_length {l : List Statement} {k : Nat} {id label : String}
    (h : LastDeclares l k id label) : k < l.length :=
  (List.getElem?_eq_some_iff.mp h.1).1

theorem LastDeclares.concat {l : List Statement} {s : Statement} {k : Nat} {id label : String}
    (h : LastDeclares l k id label) (hs : s.nodeId? ≠ some id) :
    LastDeclares (l ++ [s]) k id label := by
  refine ⟨by rw [List.getElem?_append_left h.lt_length]; exact h.1, fun j label' hLt hAt => ?_⟩
  rcases Nat.lt_trichotomy j l.length with hj | rfl | hj
  · rw [List.getElem?_append_left hj] at hAt
    exact h.2 j label' hLt hAt
  · rw [List.getElem?_concat_length, Option.some.injEq] at hAt
    rw [hAt] at hs
    exact hs rfl
  · rw [List.getElem?_eq_none (by simp; omega)] at hAt
    cases hAt

theorem lastDeclares_length (l : List Statement) (id label : String) :
    LastDeclares (l ++ [.node id label]) l.length id label := by
  refine ⟨List.getElem?_concat_length, fun j label' hLt hAt => ?_⟩
  rw [List.getElem?_eq_none (by simp; omega)] at hAt
  cases hAt

/-- A declaration stands until its node is declared again. -/
theorem IsDeclared.concat {l : List Statement} {s : Statement} {n : Node} (h : IsDeclared l n)
    (hs : s.nodeId? ≠ some n.id) : IsDeclared (l ++ [s]) n := by
  obtain ⟨k, label, hLast, hEq⟩ := h
  refine ⟨k, label, hLast.concat hs, ?_⟩
  rw [regionAt_append hLast.lt_length.le]
  exact hEq

theorem isDeclared_length (l : List Statement) (id label : String) :
    IsDeclared (l ++ [.node id label]) (.ofLabel id label (regionAt l l.length)) := by
  refine ⟨l.length, label, lastDeclares_length l id label, ?_⟩
  rw [regionAt_append le_rfl]
  rfl

theorem mem_insertNode {nodes : List Node} {n m : Node} (h : m ∈ insertNode nodes n) :
    m = n ∨ m ∈ nodes ∧ m.id ≠ n.id := by
  unfold insertNode at h
  split_ifs at h with hOld
  · obtain ⟨m', hm', rfl⟩ := List.mem_map.mp h
    by_cases hId : m'.id = n.id
    · rw [if_pos hId]
      exact .inl rfl
    · rw [if_neg hId]
      exact .inr ⟨hm', hId⟩
  · rcases List.mem_append.mp h with hm | hm
    · exact .inr ⟨hm, fun hId => hOld (hId ▸ List.mem_map_of_mem hm)⟩
    · exact .inl (List.mem_singleton.mp hm)

theorem describes_empty : Describes [] .empty :=
  ⟨rfl, fun _ h => absurd h List.not_mem_nil, rfl, rfl⟩

namespace Describes

variable {l : List Statement} {g : Graph}

theorem concat (h : Describes l g) {s : Statement} (hNode : s.nodeId? = none)
    (hEdge : s.edgeOf? = none) (hOpens : s.opens = false) : Describes (l ++ [s]) g where
  ids := by
    rw [h.ids, filterMap_concat_none hNode]
  node n hn := (h.node n hn).concat (by simp [hNode])
  edges := by
    rw [h.edges, filterMap_concat_none hEdge]
  regions := by rw [h.regions, titles_concat_of_plain hOpens]

theorem insert (h : Describes l g) (id label : String) :
    Describes (l ++ [.node id label]) (g.insert (.ofLabel id label (regionAt l l.length))) where
  ids := by
    show (insertNode g.nodes _).map Node.id = _
    rw [map_id_insertNode, List.filterMap_append, h.ids]
    simp only [List.mem_eraseDups]
    exact (eraseDups_concat _ _).symm
  node n hn := by
    rcases mem_insertNode hn with rfl | ⟨hOld, hId⟩
    · exact isDeclared_length l id label
    · exact (h.node n hOld).concat fun hEq => hId (Option.some.inj hEq).symm
  edges := by
    show g.edges = _
    rw [h.edges, filterMap_concat_none rfl]
  regions := by
    show g.regions = _
    rw [h.regions, titles_concat_of_plain rfl]

theorem addEdge (h : Describes l g) (source target : String) (label : Option String) :
    Describes (l ++ [.edge source target label]) (g.addEdge ⟨source, target, label⟩) where
  ids := by
    show g.nodes.map Node.id = _
    rw [h.ids, filterMap_concat_none rfl]
  node n hn := (h.node n hn).concat nofun
  edges := by
    show g.edges ++ [_] = _
    rw [h.edges, List.filterMap_append]
    rfl
  regions := by
    show g.regions = _
    rw [h.regions, titles_concat_of_plain rfl]

theorem recordRegion (h : Describes l g) (identifier : Option String)
    (title : Option RegionTitle) :
    Describes (l ++ [.openRegion identifier title])
      (g.recordRegion (regionName identifier title g.regions.length)) where
  ids := by
    rw [Graph.nodes_recordRegion, h.ids, filterMap_concat_none rfl]
  node n hn := by
    rw [Graph.nodes_recordRegion] at hn
    exact (h.node n hn).concat nofun
  edges := by
    rw [Graph.edges_recordRegion, h.edges, filterMap_concat_none rfl]
  regions := by
    rw [Graph.regions_recordRegion, titles_concat, ← h.regions]
    simp only [h.regions, List.mem_eraseDups]
    exact (eraseDups_concat _ _).symm

end Describes

end Statement

def SourceLine.statement (line : SourceLine) : Statement := .ofLine line.text

/-! ### Readings -/

namespace Reading

open Statement

def openRegionAt (lines : List SourceLine) (i : Nat) : Option OpenRegion := do
  let line ← lines[i]?
  let name ← titleAt (lines.map SourceLine.statement) i
  return ⟨name, line.span⟩

/-- The reading holds what the lines describe, and their open lines, the innermost first. -/
structure Follows (lines : List SourceLine) (r : Reading) : Prop where
  graph : Describes (lines.map SourceLine.statement) r.graph
  openRegions : r.openRegions =
    ((openLines (lines.map SourceLine.statement)).filterMap (openRegionAt lines)).reverse

theorem openRegionAt_append {lines rest : List SourceLine} {i : Nat} (hi : i < lines.length) :
    openRegionAt (lines ++ rest) i = openRegionAt lines i := by
  rw [openRegionAt, openRegionAt, List.getElem?_append_left hi, List.map_append,
    titleAt_append (by simpa using hi)]

theorem openRegionAt_length (lines : List SourceLine) (line : SourceLine) :
    openRegionAt (lines ++ [line]) lines.length =
      (line.statement.title? (titles (lines.map SourceLine.statement)).eraseDups.length).map
        fun name => ⟨name, line.span⟩ := by
  have hTitle := titleAt_length (lines.map SourceLine.statement) line.statement
  rw [List.length_map] at hTitle
  rw [openRegionAt, List.getElem?_concat_length, List.map_append, List.map_singleton, hTitle,
    Option.map_eq_bind]
  rfl

/-- An open line has a title. -/
theorem exists_openRegionAt {lines : List SourceLine} {i : Nat}
    (hi : i ∈ openLines (lines.map SourceLine.statement)) :
    ∃ region, openRegionAt lines i = some region ∧
      titleAt (lines.map SourceLine.statement) i = some region.name := by
  obtain ⟨s, hAt, hOpens⟩ := (Option.any_eq_true _ _).mp (mem_openLines.mp hi).1
  rw [List.getElem?_map, Option.map_eq_some_iff] at hAt
  obtain ⟨line, hLine, rfl⟩ := hAt
  cases hStatement : line.statement with
  | openRegion identifier title =>
    simp [openRegionAt, titleAt, hLine, hStatement, title?]
  | _ =>
    rw [hStatement] at hOpens
    cases hOpens

theorem filterMap_openRegionAt_concat (lines : List SourceLine) (line : SourceLine) :
    (openLines (lines.map SourceLine.statement)).filterMap (openRegionAt (lines ++ [line])) =
      (openLines (lines.map SourceLine.statement)).filterMap (openRegionAt lines) := by
  refine List.filterMap_congr fun i hi => openRegionAt_append ?_
  simpa using lt_length_of_mem_openLines hi

theorem Follows.head_openRegions {lines : List SourceLine} {r : Reading} (h : Follows lines r) :
    r.openRegions.head?.map (·.name) =
      regionAt (lines.map SourceLine.statement) (lines.map SourceLine.statement).length := by
  rw [h.openRegions, regionAt, List.take_length, List.head?_reverse]
  rcases List.eq_nil_or_concat (openLines (lines.map SourceLine.statement)) with
    hNil | ⟨outer, i, hConcat⟩
  · rw [hNil]
    rfl
  · rw [List.concat_eq_append] at hConcat
    obtain ⟨region, hRegion, hTitle⟩ := exists_openRegionAt (by rw [hConcat]; simp : i ∈ _)
    rw [hConcat, List.filterMap_append, List.filterMap_cons_some hRegion, List.filterMap_nil,
      List.getLast?_concat, List.getLast?_concat, Option.bind_some, hTitle]
    rfl

theorem follows_start (strict : Bool) : Follows [] (start strict) := ⟨describes_empty, rfl⟩

theorem Follows.openRegions_of_plain {lines : List SourceLine} {r : Reading} (h : Follows lines r)
    (line : SourceLine) (hOpens : line.statement.opens = false)
    (hCloses : line.statement.closes = false) :
    r.openRegions = ((openLines ((lines ++ [line]).map SourceLine.statement)).filterMap
      (openRegionAt (lines ++ [line]))).reverse := by
  rw [List.map_append, List.map_singleton, openLines_concat_of_plain hOpens hCloses,
    filterMap_openRegionAt_concat]
  exact h.openRegions

theorem Follows.openRegion {lines : List SourceLine} {r : Reading} (h : Follows lines r)
    {line : SourceLine} {identifier : Option String} {title : Option RegionTitle}
    (hStatement : line.statement = .openRegion identifier title) :
    Follows (lines ++ [line]) (r.apply line (.openRegion identifier title)) where
  graph := by
    rw [List.map_append, List.map_singleton, hStatement]
    exact h.graph.recordRegion identifier title
  openRegions := by
    have hLast := openRegionAt_length lines line
    rw [hStatement, title?, Option.map_some] at hLast
    rw [List.map_append, List.map_singleton, openLines_concat_of_opens (by rw [hStatement]; rfl),
      List.filterMap_append, filterMap_openRegionAt_concat, List.length_map,
      List.filterMap_cons_some hLast, List.filterMap_nil, List.reverse_append, ← h.openRegions,
      ← h.graph.regions]
    rfl

theorem graph_report (r : Reading) (p : Problem) : (r.report p).graph = r.graph := by
  unfold report
  split <;> rfl

theorem openRegions_report (r : Reading) (p : Problem) :
    (r.report p).openRegions = r.openRegions := by
  unfold report
  split <;> rfl

theorem graph_apply_closeRegion (r : Reading) (line : SourceLine) :
    (r.apply line .closeRegion).graph = r.graph := by
  unfold apply
  cases r.openRegions with
  | nil => exact graph_report r _
  | cons region outer => rfl

theorem openRegions_apply_closeRegion (r : Reading) (line : SourceLine) :
    (r.apply line .closeRegion).openRegions = r.openRegions.tail := by
  unfold apply
  cases hRegions : r.openRegions with
  | nil => exact (openRegions_report r _).trans hRegions
  | cons region outer => rfl

theorem Follows.closeRegion {lines : List SourceLine} {r : Reading} (h : Follows lines r)
    {line : SourceLine} (hStatement : line.statement = .closeRegion) :
    Follows (lines ++ [line]) (r.apply line .closeRegion) where
  graph := by
    rw [graph_apply_closeRegion, List.map_append, List.map_singleton, hStatement]
    exact h.graph.concat rfl rfl rfl
  openRegions := by
    have hCongr := filterMap_openRegionAt_concat lines line
    rw [openRegions_apply_closeRegion, h.openRegions, List.map_append, List.map_singleton,
      openLines_concat_of_closes (by rw [hStatement]; rfl)]
    rcases List.eq_nil_or_concat (openLines (lines.map SourceLine.statement)) with
      hNil | ⟨outer, i, hConcat⟩
    · rw [hNil]
      rfl
    · rw [List.concat_eq_append] at hConcat
      obtain ⟨region, hRegion, -⟩ := exists_openRegionAt (by rw [hConcat]; simp : i ∈ _)
      rw [hConcat, List.dropLast_concat, List.filterMap_append, List.filterMap_cons_some hRegion,
        List.filterMap_nil, List.reverse_concat, List.tail_cons]
      refine congrArg List.reverse (List.filterMap_congr fun j hj => ?_)
      have hMem : j ∈ openLines (lines.map SourceLine.statement) := by
        rw [hConcat]
        exact List.mem_append_left _ hj
      exact (openRegionAt_append (by simpa using lt_length_of_mem_openLines hMem)).symm

theorem Follows.step {lines : List SourceLine} {r : Reading} (h : Follows lines r)
    (line : SourceLine) : Follows (lines ++ [line]) (r.step line) := by
  show Follows _ (r.apply line line.statement)
  have hPlain := h.openRegions_of_plain line
  have hLines : (lines ++ [line]).map SourceLine.statement =
      lines.map SourceLine.statement ++ [line.statement] := by
    rw [List.map_append, List.map_singleton]
  cases hStatement : line.statement with
  | openRegion identifier title => exact h.openRegion hStatement
  | closeRegion => exact h.closeRegion hStatement
  | node id label =>
    rw [hStatement] at hPlain hLines
    refine ⟨?_, hPlain rfl rfl⟩
    rw [hLines]
    show Describes _ (r.graph.insert (.ofLabel id label _))
    rw [h.head_openRegions]
    exact h.graph.insert id label
  | edge source target label =>
    rw [hStatement] at hPlain hLines
    refine ⟨?_, hPlain rfl rfl⟩
    rw [hLines]
    exact h.graph.addEdge source target label
  | unrecognized =>
    rw [hStatement] at hPlain hLines
    refine ⟨?_, (openRegions_report r _).trans (hPlain rfl rfl)⟩
    rw [hLines, apply, graph_report]
    exact h.graph.concat rfl rfl rfl
  | blank | comment | header =>
    rw [hStatement] at hPlain hLines
    refine ⟨?_, hPlain rfl rfl⟩
    rw [hLines]
    exact h.graph.concat rfl rfl rfl

theorem ofLines_concat (strict : Bool) (lines : List SourceLine) (line : SourceLine) :
    ofLines strict (lines ++ [line]) = (ofLines strict lines).step line :=
  List.foldl_concat ..

/-- **A reading follows its lines.** -/
theorem follows_ofLines (strict : Bool) (lines : List SourceLine) :
    Follows lines (ofLines strict lines) := by
  induction lines using List.reverseRecOn with
  | nil => exact follows_start strict
  | append_singleton lines line ih =>
    rw [ofLines_concat]
    exact ih.step line

end Reading

end Diorama
