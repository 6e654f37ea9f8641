import Diorama.Diagram.Diagnostic
import Diorama.Diagram.Graph
import Diorama.Diagram.Statement

/-! # Reading diagrams

A diagram is read line by line into a graph. `Reading` is the state between two lines: the graph so
far, the regions that are open, and the problems met. Only a strict reading reports problems, and it
fails if there are any.
-/

namespace Diorama

/-- A line without surrounding blanks, and the place of that text in the source. -/
structure SourceLine where
  span : Span
  text : List Char
deriving DecidableEq, Repr

/-- Puts lines one after the other, the first of them at `offset`. -/
def placeLines (offset : Nat) : List (List Char) → List SourceLine
  | [] => []
  | line :: lines =>
    let start := offset + Text.byteLength (line.takeWhile Text.isBlank)
    let text := Text.trim line
    ⟨.ofLength start (Text.byteLength text), text⟩ ::
      placeLines (offset + Text.byteLength line + 1) lines

def sourceLines (source : List Char) : List SourceLine := placeLines 0 (source.splitOn '\n')

/-- Splits a label into a kind and a name. The keyword may be in any ASCII case and a colon may
follow it. Where nothing else is left the label is a name without kind. -/
def splitKind (label : String) : Option NodeKind × String :=
  let named (kind : NodeKind) : Option (Option NodeKind × String) := do
    let rest ← Text.dropWord? kind.keyword.toList label.toList
    let name := Text.trim (if rest.head? = some ':' then rest.tail else rest)
    if name = [] then none else return (some kind, String.ofList name)
  (NodeKind.all.findSome? named).getD (none, label)

def Node.ofLabel (id label : String) (region : Option String) : Node :=
  let (kind, name) := splitKind label
  ⟨id, label, kind, name, region⟩

/-- The name of a region: a quoted title, else the identifier, else the rest of the line, each only
if it is not blank, else `sub` and the number of regions recorded so far. -/
def regionName (identifier : Option String) (title : Option RegionTitle) (recorded : Nat) :
    String :=
  let candidates := match title with
    | some (.quoted text) | some (.bracketed text) => [some text, identifier]
    | some (.remainder text) => [identifier, some text]
    | none => [identifier]
  let trimmed := (candidates.filterMap id).map fun text => Text.trim text.toList
  match trimmed.find? (· ≠ []) with
  | some name => String.ofList name
  | none => "sub" ++ toString recorded

structure OpenRegion where
  name : String
  opener : Span
deriving DecidableEq, Repr

/-- The state between two lines. The innermost open region comes first. -/
structure Reading where
  isStrict : Bool
  graph : Graph
  openRegions : List OpenRegion
  problems : List Problem
deriving DecidableEq, Repr

namespace Reading

def start (strict : Bool) : Reading := ⟨strict, .empty, [], []⟩

def report (r : Reading) (p : Problem) : Reading :=
  if r.isStrict then { r with problems := r.problems ++ [p] } else r

def apply (r : Reading) (line : SourceLine) : Statement → Reading
  | .openRegion identifier title =>
    let name := regionName identifier title r.graph.regions.length
    { r with
      graph := r.graph.recordRegion name
      openRegions := ⟨name, line.span⟩ :: r.openRegions }
  | .closeRegion =>
    match r.openRegions with
    | [] => r.report (.unmatchedEnd line.span)
    | _ :: outer => { r with openRegions := outer }
  | .node id label =>
    { r with graph := r.graph.insert (.ofLabel id label (r.openRegions.head?.map (·.name))) }
  | .edge source target label => { r with graph := r.graph.addEdge ⟨source, target, label⟩ }
  | .unrecognized => r.report (.unrecognizedStatement (String.ofList line.text) line.span)
  | .blank | .comment | .header => r

def step (r : Reading) (line : SourceLine) : Reading := r.apply line (.ofLine line.text)

/-- Reports the regions that are still open after the last line, the outermost first. -/
def reportOpen (r : Reading) : Reading :=
  r.openRegions.foldr (fun region r => r.report (.unclosedRegion region.name region.opener)) r

def finish (r : Reading) : Except (List Problem) Graph :=
  if r.reportOpen.problems = [] then .ok r.graph else .error r.reportOpen.problems

def ofLines (strict : Bool) (lines : List SourceLine) : Reading := lines.foldl step (start strict)

end Reading

/-- Reads a diagram. A blank text is no diagram; a strict reading fails on any problem. -/
def Graph.ofSource (strict : Bool) (source : String) : Except (List Problem) Graph :=
  let text := source.toList
  if text.all Text.isBlank then .error [.emptySource (.ofLength 0 (Text.byteLength text))]
  else (Reading.ofLines strict (sourceLines text)).finish

end Diorama
