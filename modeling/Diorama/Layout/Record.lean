import Diorama.Json.Value
import Diorama.Layout.Basic

/-! # Layouts as JSON documents -/

namespace Diorama.Layout

open Json (Value)

def nodeJson (p : PlacedNode) : Value :=
  .object [("id", .string p.node.id), ("label", .string p.node.label),
    ("type", .ofOption (fun kind => .string (NodeKind.keyword kind)) p.node.kind),
    ("name", .string p.node.name), ("subgraph", .ofOption .string p.node.region),
    ("position", .array (p.position.toList.map .double))]

def edgeJson (e : Edge) : Value :=
  .object [("from", .string e.source), ("to", .string e.target),
    ("label", .ofOption .string e.label)]

/-- A time is only told if there is one, in seconds. -/
def record (generatedAt : Option Nat) (l : Layout) : Value :=
  .object ((generatedAt.toList.map fun time => ("generatedAt", .natural time)) ++
    [("nodes", .array (l.nodes.map nodeJson)), ("edges", .array (l.edges.map edgeJson)),
      ("columns", .array (l.columns.map fun column => .string column.text))])

end Diorama.Layout
