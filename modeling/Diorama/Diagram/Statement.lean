import Diorama.Text.Blank
import Diorama.Text.Caseless

/-! # Statements

Every line of a diagram is read on its own, as one `Statement`. A line that is no statement is
skipped, and the constructor says why. A region line is recognised first, then `end`, a node, an
edge and a header; what follows a recognised node or edge on its line is ignored.
-/

namespace Diorama

/-- The title of a region, by the way it is written. -/
inductive RegionTitle where
  | quoted (text : String)
  | bracketed (text : String)
  | remainder (text : String)
deriving DecidableEq, Repr

inductive Statement where
  | openRegion (identifier : Option String) (title : Option RegionTitle)
  | closeRegion
  | node (id label : String)
  | edge (source target : String) (label : Option String)
  | blank
  | comment
  | header
  | unrecognized
deriving DecidableEq, Repr

namespace Statement

/-- Identifiers consist of ASCII letters, digits and underscores. -/
def isWordChar (c : Char) : Bool := c.isAlphanum || c = '_'

/-- Inside of a statement only spaces and tabs separate. -/
def isGap (c : Char) : Bool := c = ' ' || c = '\t'

def opensLabel (c : Char) : Bool := c = '[' || c = '(' || c = '\x7b'

def closesLabel (c : Char) : Bool := c = ']' || c = ')' || c = '\x7d'

def isArrowBody (c : Char) : Bool := c = '-' || c = '.'

/-- What follows a keyword that stands alone, in any ASCII case. -/
def afterKeyword? (keyword : String) (text : List Char) : Option (List Char) :=
  (Text.dropWord? keyword.toList text).filter fun rest => rest.head?.all isGap

/-- The text up to a quotation mark and what follows the mark. The text is not empty. -/
def quotedBody? (text : List Char) : Option (String × List Char) :=
  match text.takeWhile (· ≠ '"'), text.dropWhile (· ≠ '"') with
  | c :: body, _ :: rest => some (String.ofList (c :: body), rest)
  | _, _ => none

def bracketedTitle? : List Char → Option RegionTitle
  | '[' :: '"' :: text =>
    match quotedBody? text with
    | some (body, ']' :: _) => some (.bracketed body)
    | _ => none
  | _ => none

def quotedTitle? : List Char → Option RegionTitle
  | '"' :: text => (quotedBody? text).map fun (body, _) => .quoted body
  | _ => none

def remainderTitle? : List Char → Option RegionTitle
  | [] => none
  | text => some (.remainder (String.ofList text))

def regionTitle? (text : List Char) : Option RegionTitle :=
  bracketedTitle? text <|> quotedTitle? text <|> remainderTitle? text

/-- An identifier of a region is a word on its own; otherwise it is part of the title. -/
def endsIdentifier (rest : List Char) : Bool :=
  rest.head?.all fun c => isGap c || c = '"' || c = '['

def openRegion? (text : List Char) : Option Statement :=
  (afterKeyword? "subgraph" text).map fun rest =>
    let rest := rest.dropWhile isGap
    let word := rest.takeWhile isWordChar
    let afterWord := rest.dropWhile isWordChar
    if word ≠ [] ∧ endsIdentifier afterWord then
      .openRegion (some (String.ofList word)) (regionTitle? (afterWord.dropWhile isGap))
    else .openRegion none (regionTitle? rest)

def closeRegion? (text : List Char) : Option Statement :=
  if Text.dropWord? "end".toList text = some [] then some .closeRegion else none

/-- A word at the start of a text, and what follows it. -/
def word? (text : List Char) : Option (String × List Char) :=
  match text.takeWhile isWordChar with
  | [] => none
  | word => some (String.ofList word, text.dropWhile isWordChar)

/-- A label in brackets. The brackets need not be of one shape. -/
def label? : List Char → Option String
  | c :: text =>
    let body := text.takeWhile (!closesLabel ·)
    if opensLabel c ∧ body ≠ [] ∧ text.dropWhile (!closesLabel ·) ≠ [] then
      some (String.ofList (Text.trim body))
    else none
  | [] => none

def node? (text : List Char) : Option Statement := do
  let (id, rest) ← word? text
  let label ← label? (rest.dropWhile isGap)
  return .node id label

/-- An arrow: dashes and dots, then `>`. -/
def afterArrow? (text : List Char) : Option (List Char) :=
  match text.takeWhile isArrowBody, text.dropWhile isArrowBody with
  | _ :: _, '>' :: rest => some (rest.dropWhile isGap)
  | _, _ => none

/-- The label between bars that an arrow may carry, and what follows it. -/
def edgeLabel? : List Char → Option (Option String × List Char)
  | '|' :: text =>
    match text.takeWhile (· ≠ '|'), text.dropWhile (· ≠ '|') with
    | c :: body, _ :: rest => some (some (String.ofList (Text.trim (c :: body))), rest.dropWhile isGap)
    | _, _ => none
  | text => some (none, text)

def edge? (text : List Char) : Option Statement := do
  let (source, rest) ← word? text
  let rest ← afterArrow? (rest.dropWhile isGap)
  let (label, rest) ← edgeLabel? rest
  let (target, _) ← word? rest
  return .edge source target label

def header? (text : List Char) : Option Statement :=
  (afterKeyword? "flowchart" text <|> afterKeyword? "graph" text).map fun _ => .header

/-- Reads a line without surrounding blanks. -/
def ofTrimmed (text : List Char) : Statement :=
  if text = [] then .blank
  else if "%%".toList <+: text then .comment
  else
    (openRegion? text <|> closeRegion? text <|> node? text <|> edge? text <|> header? text).getD
      .unrecognized

/-- Reads a line. -/
def ofLine (line : List Char) : Statement := ofTrimmed (Text.trim line)

end Statement

end Diorama
