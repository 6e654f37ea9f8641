import Mathlib.Data.Finset.Card
import Mathlib.Data.List.Induction
import Diorama.Diagram.Graph
import Diorama.Proofs.List.Repetition

/-!
# Histories of graphs

A graph under edits, and the answers that it gives, are told by three lists: the nodes that have been
inserted, the edges that have been added and the names that have been recorded (`Session.Keeps`). Every
edit adds to one of the lists and leaves the other parts of the graph alone, so that what they tell
holds after every history (`Session.keeps_run`), and how edits of different kinds follow each other does
not matter (`Session.run_histories`).
-/

namespace Diorama

/-! ### Looking up nodes -/

theorem find?_replace_self {nodes : List Node} {n : Node} (h : n.id ∈ nodes.map Node.id) :
    (nodes.map fun m => if m.id = n.id then n else m).find? (·.id = n.id) = some n := by
  induction nodes with
  | nil => cases h
  | cons m nodes ih =>
    by_cases hId : m.id = n.id
    · simp [hId]
    · have hRest : n.id ∈ nodes.map Node.id := by simpa [Ne.symm hId] using h
      simpa [hId] using ih hRest

theorem find?_replace_of_ne {n : Node} {id : String} (h : n.id ≠ id) (nodes : List Node) :
    (nodes.map fun m => if m.id = n.id then n else m).find? (·.id = id) =
      nodes.find? (·.id = id) := by
  induction nodes with
  | nil => rfl
  | cons m nodes ih =>
    by_cases hId : m.id = n.id
    · rw [List.map_cons, if_pos hId, List.find?_cons_of_neg (by simpa using h),
        List.find?_cons_of_neg (by simpa [hId] using h), ih]
    · rw [List.map_cons, if_neg hId, List.find?_cons, List.find?_cons, ih]

theorem find?_insertNode (nodes : List Node) (n : Node) (id : String) :
    (insertNode nodes n).find? (·.id = id) =
      if n.id = id then some n else nodes.find? (·.id = id) := by
  unfold insertNode
  by_cases hOld : n.id ∈ nodes.map Node.id
  · rw [if_pos hOld]
    by_cases hId : n.id = id
    · subst hId
      rw [if_pos rfl, find?_replace_self hOld]
    · rw [if_neg hId, find?_replace_of_ne hId]
  · rw [if_neg hOld, List.find?_append]
    by_cases hId : n.id = id
    · subst hId
      have hNone : nodes.find? (·.id = n.id) = none := by
        simpa using hOld
      simp [hNone]
    · simp [hId]

namespace Graph

theorem find?_of_mem {g : Graph} {n : Node} (hn : n ∈ g.nodes) : g.find? n.id = some n := by
  have hSome : (g.find? n.id).isSome := by
    rw [find?, List.find?_isSome]
    exact ⟨n, hn, by simp⟩
  obtain ⟨m, hm⟩ := Option.isSome_iff_exists.mp hSome
  have hId : m.id = n.id := by simpa using List.find?_some hm
  rw [hm, List.inj_on_of_nodup_map g.ids_nodup (List.mem_of_find?_eq_some hm) hn hId]

/-- The nodes are those that are found under the identifiers. -/
theorem nodes_eq_filterMap (g : Graph) : g.nodes = (g.nodes.map Node.id).filterMap g.find? := by
  rw [List.filterMap_map]
  have hFound : ∀ n ∈ g.nodes, (g.find? ∘ Node.id) n = some n := fun n hn => find?_of_mem hn
  rw [List.filterMap_congr hFound, List.filterMap_some]

end Graph

/-! ### Edits -/

inductive Edit where
  | insert (n : Node)
  | addEdge (e : Edge)
  | recordRegion (name : String)

namespace Edit

def node? : Edit → Option Node
  | .insert n => some n
  | _ => none

def edge? : Edit → Option Edge
  | .addEdge e => some e
  | _ => none

def name? : Edit → Option String
  | .recordRegion name => some name
  | _ => none

def apply (g : Graph) : Edit → Graph
  | .insert n => g.insert n
  | .addEdge e => g.addEdge e
  | .recordRegion name => g.recordRegion name

/-- Only recording answers. -/
def answer? (g : Graph) : Edit → Option Bool
  | .recordRegion name => some (g.isNewRegion name)
  | _ => none

end Edit

/-- A graph, and what it has answered. -/
structure Session where
  graph : Graph
  answers : List Bool
deriving DecidableEq

namespace Session

def start : Session := ⟨.empty, []⟩

def step (s : Session) (edit : Edit) : Session :=
  ⟨edit.apply s.graph, s.answers ++ (edit.answer? s.graph).toList⟩

def run (edits : List Edit) : Session := edits.foldl step start

/-- The session is that of a graph into which `nodes` have been inserted, `edges` added and `names`
recorded: the identifiers stand in the order of their first nodes, each of them holds its last node, and
the answers tell which names were there for the first time. -/
structure Keeps (s : Session) (nodes : List Node) (edges : List Edge) (names : List String) :
    Prop where
  ids : s.graph.nodes.map Node.id = (nodes.map Node.id).eraseDups
  node : ∀ id, s.graph.find? id = nodes.reverse.find? (·.id = id)
  edges : s.graph.edges = edges
  regions : s.graph.regions = names.eraseDups
  answers : s.answers = firsts names

theorem keeps_start : start.Keeps [] [] [] := ⟨rfl, fun _ => rfl, rfl, rfl, rfl⟩

namespace Keeps

variable {s s' : Session} {nodes : List Node} {edges : List Edge} {names : List String}

theorem insert (h : s.Keeps nodes edges names) (n : Node) :
    (s.step (.insert n)).Keeps (nodes ++ [n]) edges names where
  ids := by
    show (insertNode s.graph.nodes n).map Node.id = _
    rw [map_id_insertNode, h.ids, List.map_append, List.map_singleton, eraseDups_concat]
    simp only [List.mem_eraseDups]
  node id := by
    show (insertNode s.graph.nodes n).find? _ = _
    rw [find?_insertNode, List.reverse_append, List.reverse_singleton, List.singleton_append,
      List.find?_cons, ← h.node id]
    by_cases hId : n.id = id
    · simp [hId]
    · simp [hId, Graph.find?]
  edges := h.edges
  regions := h.regions
  answers := by
    show s.answers ++ [] = _
    rw [List.append_nil, h.answers]

theorem addEdge (h : s.Keeps nodes edges names) (e : Edge) :
    (s.step (.addEdge e)).Keeps nodes (edges ++ [e]) names where
  ids := h.ids
  node := h.node
  edges := by
    show s.graph.edges ++ [e] = _
    rw [h.edges]
  regions := h.regions
  answers := by
    show s.answers ++ [] = _
    rw [List.append_nil, h.answers]

theorem recordRegion (h : s.Keeps nodes edges names) (name : String) :
    (s.step (.recordRegion name)).Keeps nodes edges (names ++ [name]) where
  ids := by
    show (s.graph.recordRegion name).nodes.map Node.id = _
    rw [Graph.nodes_recordRegion, h.ids]
  node id := by
    show (s.graph.recordRegion name).nodes.find? _ = _
    rw [Graph.nodes_recordRegion, ← h.node id, Graph.find?]
  edges := by
    show (s.graph.recordRegion name).edges = _
    rw [Graph.edges_recordRegion, h.edges]
  regions := by
    show (s.graph.recordRegion name).regions = _
    rw [Graph.regions_recordRegion, h.regions, eraseDups_concat]
    simp only [List.mem_eraseDups]
  answers := by
    show s.answers ++ [decide (name ∉ s.graph.regions)] = _
    rw [h.answers, h.regions, firsts_concat]
    simp only [List.mem_eraseDups]

theorem step (h : s.Keeps nodes edges names) (edit : Edit) :
    (s.step edit).Keeps (nodes ++ edit.node?.toList) (edges ++ edit.edge?.toList)
      (names ++ edit.name?.toList) := by
  cases edit with
  | insert n => simpa [Edit.node?, Edit.edge?, Edit.name?] using h.insert n
  | addEdge e => simpa [Edit.node?, Edit.edge?, Edit.name?] using h.addEdge e
  | recordRegion name => simpa [Edit.node?, Edit.edge?, Edit.name?] using h.recordRegion name

theorem unique (h : s.Keeps nodes edges names) (h' : s'.Keeps nodes edges names) : s = s' := by
  have hNodes : s.graph.nodes = s'.graph.nodes := by
    rw [s.graph.nodes_eq_filterMap, s'.graph.nodes_eq_filterMap, h.ids, h'.ids]
    exact List.filterMap_congr fun id _ => (h.node id).trans (h'.node id).symm
  have hEdges := h.edges.trans h'.edges.symm
  have hRegions := h.regions.trans h'.regions.symm
  have hAnswers := h.answers.trans h'.answers.symm
  obtain ⟨⟨_, _, _, _, _⟩, _⟩ := s
  obtain ⟨⟨_, _, _, _, _⟩, _⟩ := s'
  simp only [Session.mk.injEq, Graph.mk.injEq]
  exact ⟨⟨hNodes, hEdges, hRegions⟩, hAnswers⟩

/-- There are as many nodes as different identifiers. -/
theorem length_nodes (h : s.Keeps nodes edges names) :
    s.graph.nodes.length = (nodes.map Node.id).toFinset.card := by
  have hSame : (nodes.map Node.id).toFinset = (s.graph.nodes.map Node.id).toFinset := by
    ext id
    rw [h.ids, List.mem_toFinset, List.mem_toFinset, List.mem_eraseDups]
  rw [hSame, List.toFinset_card_of_nodup s.graph.ids_nodup, List.length_map]

end Keeps

theorem filterMap_concat {α β : Type} (f : α → Option β) (l : List α) (a : α) :
    (l ++ [a]).filterMap f = l.filterMap f ++ (f a).toList := by
  rw [List.filterMap_append]
  cases h : f a <;> simp [h]

theorem keeps_run (edits : List Edit) :
    (run edits).Keeps (edits.filterMap Edit.node?) (edits.filterMap Edit.edge?)
      (edits.filterMap Edit.name?) := by
  induction edits using List.reverseRecOn with
  | nil => exact keeps_start
  | append_singleton edits edit ih =>
    rw [run, List.foldl_concat, filterMap_concat, filterMap_concat, filterMap_concat]
    exact ih.step edit

/-- **A graph is what its edits of each kind say**, after every history of edits. -/
theorem run_histories (edits : List Edit) :
    (run edits).Keeps (edits.filterMap Edit.node?) (edits.filterMap Edit.edge?)
      (edits.filterMap Edit.name?) ∧
    (run edits).graph.nodes.length = ((edits.filterMap Edit.node?).map Node.id).toFinset.card ∧
    (∀ g : Graph,
      (∀ n, (g.insert n).edges = g.edges ∧ (g.insert n).regions = g.regions) ∧
      (∀ e, (g.addEdge e).nodes = g.nodes ∧ (g.addEdge e).regions = g.regions) ∧
      ∀ name, (g.recordRegion name).nodes = g.nodes ∧ (g.recordRegion name).edges = g.edges) ∧
    ∀ edits' : List Edit, edits'.filterMap Edit.node? = edits.filterMap Edit.node? →
      edits'.filterMap Edit.edge? = edits.filterMap Edit.edge? →
      edits'.filterMap Edit.name? = edits.filterMap Edit.name? → run edits' = run edits := by
  refine ⟨keeps_run edits, (keeps_run edits).length_nodes, fun g => ?_, ?_⟩
  · exact ⟨fun n => ⟨rfl, rfl⟩, fun e => ⟨rfl, rfl⟩,
      fun name => ⟨g.nodes_recordRegion name, g.edges_recordRegion name⟩⟩
  · intro edits' hNodes hEdges hNames
    have hKeeps := keeps_run edits'
    rw [hNodes, hEdges, hNames] at hKeeps
    exact hKeeps.unique (keeps_run edits)

/-- A node that is inserted again, a region that is recorded again, and an edge between the two. -/
def repeating : List Edit :=
  [.recordRegion "x", .insert ⟨"a", "1", none, "1", none⟩, .insert ⟨"b", "2", none, "2", none⟩,
    .addEdge ⟨"a", "c", none⟩, .recordRegion "x", .insert ⟨"a", "3", some .pod, "", some "y"⟩]

/-- The same edits of each kind, one kind after the other. -/
def regrouped : List Edit :=
  [.addEdge ⟨"a", "c", none⟩, .insert ⟨"a", "1", none, "1", none⟩,
    .insert ⟨"b", "2", none, "2", none⟩, .insert ⟨"a", "3", some .pod, "", some "y"⟩,
    .recordRegion "x", .recordRegion "x"]

theorem run_histories_regrouped :
    run regrouped = run repeating ∧ (run regrouped).answers = [true, false] ∧
      (run regrouped).graph.find? "a" = some ⟨"a", "3", some .pod, "", some "y"⟩ ∧
      (run regrouped).graph.nodes.map Node.id = ["a", "b"] := by
  obtain ⟨hKeeps, -, -, hOther⟩ := run_histories repeating
  have hSame := hOther regrouped rfl rfl rfl
  rw [hSame]
  refine ⟨rfl, hKeeps.answers.trans (by decide), (hKeeps.node "a").trans (by decide), ?_⟩
  exact hKeeps.ids.trans (by decide)

end Session

end Diorama
