import Diorama.Diagram.Graph
import Diorama.Geometry.Point
import Diorama.Settings

/-! # Layout

Every region of a diagram is a column, and nodes without region have a column of their own behind
the others. The nodes of a column stand in rows, in the order of the graph.
-/

namespace Diorama

inductive Column where
  | region (name : String)
  | unassigned
deriving DecidableEq, Repr

/-- The written name of the column of nodes without region. A region may have the same name. -/
def unassignedName : String := "_default_"

def Column.text : Column → String
  | .region name => name
  | .unassigned => unassignedName

def Node.column (n : Node) : Column :=
  match n.region with
  | some name => .region name
  | none => .unassigned

structure PlacedNode where
  node : Node
  position : Point
deriving DecidableEq, Repr

structure Layout where
  nodes : List PlacedNode
  columns : List Column
  edges : List Edge
deriving DecidableEq, Repr

namespace Layout

def isEmpty (l : Layout) : Bool := l.nodes.isEmpty

def depth (spacing : Spacing) : DepthBand → Double
  | .workload => spacing.workloadDepth
  | .service => spacing.serviceDepth
  | .neutral => 0

/-- Columns run to the right and rows downwards. No coordinate is a negative zero. -/
def position (spacing : Spacing) (column row : Nat) (band : DepthBand) : Point :=
  Vec3.map Binary.positiveZero
    ⟨.ofNat column * spacing.column, -(.ofNat row * spacing.row), depth spacing band⟩

/-- The recorded regions, then those that only nodes name, then the column of the rest. -/
def columnsOf (g : Graph) : List Column :=
  (g.regions ++ g.nodes.filterMap (·.region)).eraseDups.map .region ++ [.unassigned]

/-- The nodes of one column, the top row first. -/
def placeColumn (spacing : Spacing) (nodes : List Node) (column : Column) (index : Nat) :
    List PlacedNode :=
  (nodes.filter (·.column = column)).zipIdx.map fun (n, row) =>
    ⟨n, position spacing index row n.band⟩

def ofGraph (spacing : Spacing) (g : Graph) : Layout where
  nodes := (columnsOf g).zipIdx.flatMap fun (column, index) =>
    placeColumn spacing g.nodes column index
  columns := columnsOf g
  edges := g.edges

end Layout

end Diorama
