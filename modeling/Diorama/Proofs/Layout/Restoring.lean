import Diorama.Conversion.Basic
import Diorama.Proofs.Json.Reading

/-!
# Layouts read back

A reader of layout documents that takes objects with exactly the expected members. Of every layout with
finite positions it finds the time, the nodes, the edges and the written names of the columns again
(`account?_record`), so that documents of layouts that differ in any of these differ
(`layoutText_restores`).
-/

namespace Diorama

open Json (Datum Value)

/-! ### The reader -/

def NodeKind.ofKeyword? (word : String) : Option NodeKind :=
  NodeKind.all.find? (·.keyword = word)

def Point.ofData? (data : List Datum) : Option Point :=
  match data.mapM Datum.binary? with
  | some [x, y, z] => some ⟨x, y, z⟩
  | _ => none

def Edge.ofDatum? (d : Datum) : Option Edge :=
  match d.values? ["from", "to", "label"] with
  | some [source, target, label] => do
    let source ← source.string?
    let target ← target.string?
    let label ← label.optional? Datum.string?
    return ⟨source, target, label⟩
  | _ => none

namespace Layout

/-- A node as a layout document tells it, the coordinates as they are written. -/
structure Entry where
  id : String
  label : String
  kind : Option String
  name : String
  region : Option String
  position : List Datum

def Entry.ofDatum? (d : Datum) : Option Entry :=
  match d.values? ["id", "label", "type", "name", "subgraph", "position"] with
  | some [id, label, kind, name, region, position] => do
    let id ← id.string?
    let label ← label.string?
    let kind ← kind.optional? Datum.string?
    let name ← name.string?
    let region ← region.optional? Datum.string?
    let position ← position.items?
    return ⟨id, label, kind, name, region, position⟩
  | _ => none

/-- The nodes that a document tells. -/
def entries? (root : Datum) : Option (List Entry) :=
  (root.member? "nodes").bind (·.list? Entry.ofDatum?)

def Entry.placedNode? (e : Entry) : Option PlacedNode := do
  let kind ← e.kind.mapM NodeKind.ofKeyword?
  let position ← Point.ofData? e.position
  return ⟨⟨e.id, e.label, kind, e.name, e.region⟩, position⟩

/-- What a layout document tells. -/
structure Account where
  generatedAt : Option Nat
  nodes : List PlacedNode
  edges : List Edge
  columns : List String
deriving DecidableEq, Repr

def Account.ofParts? (generatedAt : Option Nat) (nodes edges columns : Datum) : Option Account := do
  let nodes ← nodes.list? fun d => (Entry.ofDatum? d).bind Entry.placedNode?
  let edges ← edges.list? Edge.ofDatum?
  let columns ← columns.list? Datum.string?
  return ⟨generatedAt, nodes, edges, columns⟩

/-- The time may be missing, but no other member. -/
def account? (d : Datum) : Option Account :=
  match d.values? ["nodes", "edges", "columns"] with
  | some [nodes, edges, columns] => Account.ofParts? none nodes edges columns
  | _ =>
    match d.values? ["generatedAt", "nodes", "edges", "columns"] with
    | some [time, nodes, edges, columns] => do
      let time ← time.natural?
      Account.ofParts? (some time) nodes edges columns
    | _ => none

def account (generatedAt : Option Nat) (l : Layout) : Account :=
  ⟨generatedAt, l.nodes, l.edges, l.columns.map Column.text⟩

/-- No coordinate is infinite or not a number. -/
def IsFinite (l : Layout) : Prop :=
  ∀ p ∈ l.nodes, ∀ x ∈ p.position.toList, x.isFinite = true

/-! ### Parts of a document -/

/-- What a layout document tells of a node. -/
def entry (p : PlacedNode) : Entry where
  id := p.node.id
  label := p.node.label
  kind := p.node.kind.map NodeKind.keyword
  name := p.node.name
  region := p.node.region
  position := p.position.toList.map fun x => (Value.double x).datum

end Layout

theorem NodeKind.ofKeyword?_keyword (kind : NodeKind) :
    NodeKind.ofKeyword? kind.keyword = some kind := by
  cases kind <;> decide

theorem Point.ofData?_datum {p : Point} (h : ∀ x ∈ p.toList, x.isFinite = true) :
    Point.ofData? (p.toList.map fun x => (Value.double x).datum) = some p := by
  have hx := Value.binary?_datum_double (h p.x (by simp [Vec3.toList]))
  have hy := Value.binary?_datum_double (h p.y (by simp [Vec3.toList]))
  have hz := Value.binary?_datum_double (h p.z (by simp [Vec3.toList]))
  simp [Point.ofData?, Vec3.toList, hx, hy, hz]

theorem Edge.ofDatum?_edgeJson (e : Edge) : Edge.ofDatum? (Layout.edgeJson e).datum = some e := by
  rw [Edge.ofDatum?, Layout.edgeJson]
  simp [Value.values?_datum, Value.string?_datum, Value.optional?_string_datum]

namespace Layout

theorem Entry.ofDatum?_nodeJson (p : PlacedNode) :
    Entry.ofDatum? (nodeJson p).datum = some (entry p) := by
  have hKind := Value.optional?_text_datum NodeKind.keyword p.node.kind
  rw [Entry.ofDatum?, nodeJson]
  simp [Value.values?_datum, Value.string?_datum, Value.items?_datum, Value.optional?_string_datum,
    hKind, entry]

theorem entries?_record (l : Layout) (generatedAt : Option Nat) :
    entries? (l.record generatedAt).datum = some (l.nodes.map entry) := by
  have hNodes : (Value.array (l.nodes.map nodeJson)).datum.list? Entry.ofDatum? =
      some (l.nodes.map entry) :=
    Value.list?_datum fun p _ => Entry.ofDatum?_nodeJson p
  rw [entries?, record, Value.member?_datum]
  cases generatedAt <;> simpa [List.lookup_cons] using hNodes

theorem Entry.placedNode?_entry {p : PlacedNode}
    (h : ∀ x ∈ p.position.toList, x.isFinite = true) : (entry p).placedNode? = some p := by
  have hKind : (p.node.kind.map NodeKind.keyword).mapM NodeKind.ofKeyword? =
      some p.node.kind := by
    cases p.node.kind with
    | none => rfl
    | some kind => simp [NodeKind.ofKeyword?_keyword]
  rw [Entry.placedNode?, entry, hKind, Point.ofData?_datum h]
  rfl

theorem list?_columnNames (columns : List Column) :
    (Value.array (columns.map fun column => .string column.text)).datum.list? Datum.string? =
      some (columns.map Column.text) :=
  Value.list?_datum fun column _ => Value.string?_datum column.text

theorem ofParts?_datum {l : Layout} (hFinite : l.IsFinite) (generatedAt : Option Nat) :
    Account.ofParts? generatedAt (Value.array (l.nodes.map nodeJson)).datum
        (Value.array (l.edges.map edgeJson)).datum
        (Value.array (l.columns.map fun column => .string column.text)).datum =
      some (l.account generatedAt) := by
  have hNodes : (Value.array (l.nodes.map nodeJson)).datum.list?
      (fun d => (Entry.ofDatum? d).bind Entry.placedNode?) = some l.nodes := by
    refine Value.list?_datum_self fun p hp => ?_
    rw [Entry.ofDatum?_nodeJson, Option.bind_some]
    exact Entry.placedNode?_entry (hFinite p hp)
  have hEdges : (Value.array (l.edges.map edgeJson)).datum.list? Edge.ofDatum? = some l.edges :=
    Value.list?_datum_self fun e _ => Edge.ofDatum?_edgeJson e
  rw [Account.ofParts?, hNodes, hEdges]
  show (Datum.list? Datum.string? _).bind _ = _
  rw [list?_columnNames]
  rfl

/-- **A document tells the time, the nodes, the edges and the columns of its layout.** -/
theorem account?_record {l : Layout} (hFinite : l.IsFinite) (generatedAt : Option Nat) :
    account? (l.record generatedAt).datum = some (l.account generatedAt) := by
  have hParts := ofParts?_datum hFinite generatedAt
  rw [record]
  cases generatedAt with
  | none =>
    simp [account?, Value.values?_datum, hParts]
  | some time =>
    simp [account?, Value.values?_datum, Value.natural?_datum, hParts]

/-- **The document of a layout with finite positions is read back**: the time if there is one, nodes,
edges and columns in their order, and what is absent as absent. Layouts that differ in any of these
never have the same text, nor does one layout at two times. -/
theorem layoutText_restores (settings : Settings) (generatedAt : Option Nat) {l : Layout}
    (hFinite : l.IsFinite) :
    ∃ text root, Rendering.layoutText ⟨settings, generatedAt, .layout⟩ l = .ok text ∧
      Json.read? text = some root ∧
      (root.member? "generatedAt" = none ↔ generatedAt = none) ∧
      account? root =
        some ⟨generatedAt, l.nodes, l.edges, l.columns.map Column.text⟩ ∧
      ∀ (settings' : Settings) (generatedAt' : Option Nat) (l' : Layout), l'.IsFinite →
        Rendering.layoutText ⟨settings', generatedAt', .layout⟩ l' = .ok text →
        generatedAt' = generatedAt ∧ l'.nodes = l.nodes ∧ l'.edges = l.edges ∧
          l'.columns.map Column.text = l.columns.map Column.text := by
  refine ⟨_, _, rfl, Value.read?_text _, ?_, account?_record hFinite generatedAt, ?_⟩
  · rw [record, Value.member?_datum]
    cases generatedAt <;> simp [List.lookup_cons]
  · intro settings' generatedAt' l' hFinite' hText
    have hSame : (l'.record generatedAt').text = (l.record generatedAt).text :=
      Except.ok.inj hText
    have hDatum := (Value.read?_text (l'.record generatedAt')).symm.trans
      ((congrArg Json.read? hSame).trans (Value.read?_text (l.record generatedAt)))
    have hAccount := congrArg account? (Option.some.inj hDatum)
    rw [account?_record hFinite', account?_record hFinite] at hAccount
    exact Account.mk.inj (Option.some.inj hAccount)

/-- Its texts are empty, or of characters that are escaped, or not of ASCII. -/
def strange : Layout where
  nodes := [⟨⟨"\"\\/", "", none, "\n\x01\u00e9", some ""⟩, ⟨0, -3, .ofDecimal false ⟨1, -300⟩⟩⟩]
  columns := [.region "", .unassigned]
  edges := [⟨"\t", "null", some ""⟩, ⟨"", "", none⟩]

theorem layoutText_restores_strange :
    strange.IsFinite ∧ ∃ text root,
      Rendering.layoutText ⟨.standard, some (2 ^ 64 - 1), .layout⟩ strange = .ok text ∧
      Json.read? text = some root ∧
      account? root =
        some ⟨some (2 ^ 64 - 1), strange.nodes, strange.edges, ["", "_default_"]⟩ ∧
      Rendering.layoutText ⟨.standard, none, .layout⟩ strange ≠ .ok text := by
  have hFinite : strange.IsFinite := by
    rw [IsFinite]
    decide +kernel
  obtain ⟨text, root, hText, hRead, -, hAccount, hOther⟩ :=
    layoutText_restores .standard (some (2 ^ 64 - 1)) hFinite
  refine ⟨hFinite, text, root, hText, hRead, hAccount, fun hSame => ?_⟩
  exact nomatch (hOther .standard none strange hFinite hSame).1

end Layout

end Diorama
