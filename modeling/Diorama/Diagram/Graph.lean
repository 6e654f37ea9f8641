import Diorama.Diagram.Kind

/-! # Diagram graphs

Nodes keep the place of their first insertion and the content of their last one. Edges are kept as
they come, and may name nodes that do not exist. Region names are kept once each, in the order in
which they were first recorded.
-/

namespace Diorama

structure Node where
  id : String
  label : String
  kind : Option NodeKind
  name : String
  region : Option String
deriving DecidableEq, Repr

/-- The depth band of the node's kind; nodes without a kind are neutral. -/
def Node.band (n : Node) : DepthBand := (n.kind.map NodeKind.band).getD .neutral

structure Edge where
  source : String
  target : String
  label : Option String
deriving DecidableEq, Repr

structure Graph where
  nodes : List Node
  edges : List Edge
  regions : List String
  ids_nodup : (nodes.map Node.id).Nodup
  regions_nodup : regions.Nodup
deriving DecidableEq, Repr

/-- Puts `n` in the place of the node with its id, or at the end if there is none. -/
def insertNode (nodes : List Node) (n : Node) : List Node :=
  if n.id ∈ nodes.map Node.id then nodes.map fun m => if m.id = n.id then n else m
  else nodes ++ [n]

theorem map_id_insertNode (nodes : List Node) (n : Node) :
    (insertNode nodes n).map Node.id =
      if n.id ∈ nodes.map Node.id then nodes.map Node.id else nodes.map Node.id ++ [n.id] := by
  unfold insertNode
  split
  · rw [List.map_map]
    apply List.map_congr_left
    intro m _
    by_cases h : m.id = n.id <;> simp [h]
  · simp

theorem ids_nodup_insertNode {nodes : List Node} (h : (nodes.map Node.id).Nodup) (n : Node) :
    ((insertNode nodes n).map Node.id).Nodup := by
  rw [map_id_insertNode]
  split
  · exact h
  · next hNew =>
    rw [List.nodup_append]
    refine ⟨h, by simp, ?_⟩
    intro a ha b hb hab
    rw [List.mem_singleton] at hb
    exact hNew (hb ▸ hab ▸ ha)

namespace Graph

def empty : Graph := ⟨[], [], [], .nil, .nil⟩

def insert (g : Graph) (n : Node) : Graph :=
  { g with
    nodes := insertNode g.nodes n
    ids_nodup := ids_nodup_insertNode g.ids_nodup n }

def addEdge (g : Graph) (e : Edge) : Graph := { g with edges := g.edges ++ [e] }

/-- Records a region name at the end, unless it is there already. -/
def recordRegion (g : Graph) (name : String) : Graph :=
  if h : name ∈ g.regions then g
  else
    { g with
      regions := g.regions ++ [name]
      regions_nodup := by
        rw [List.nodup_append]
        refine ⟨g.regions_nodup, by simp, ?_⟩
        intro a ha b hb hab
        rw [List.mem_singleton] at hb
        exact h (hb ▸ hab ▸ ha) }

/-- What recording `name` answers: whether it is there for the first time. -/
def isNewRegion (g : Graph) (name : String) : Bool := name ∉ g.regions

theorem nodes_recordRegion (g : Graph) (name : String) :
    (g.recordRegion name).nodes = g.nodes := by
  unfold recordRegion
  split <;> rfl

theorem edges_recordRegion (g : Graph) (name : String) :
    (g.recordRegion name).edges = g.edges := by
  unfold recordRegion
  split <;> rfl

theorem regions_recordRegion (g : Graph) (name : String) :
    (g.recordRegion name).regions =
      if name ∈ g.regions then g.regions else g.regions ++ [name] := by
  unfold recordRegion
  split <;> rfl

def find? (g : Graph) (id : String) : Option Node := g.nodes.find? (·.id = id)

end Graph

end Diorama
