import Diorama.Text.Blank
import Diorama.Text.Caseless
import Diorama.Text.Search

/-! # Embedded diagrams

A diagram may stand in a fenced block of a Markdown document or in a `div` container of a web page.
In both the first opener decides: its body ends at the next closer, and later openers are never
tried.
-/

namespace Diorama.Embedded

/-- The two forms in which a diagram is embedded. -/
inductive Form where
  | fenced
  | container
deriving DecidableEq, Repr

def Form.description : Form → String
  | .fenced => "fenced ```mermaid block"
  | .container => "<div class=\"mermaid\"> container"

/-- The only failure: no complete block of this form. -/
structure NotFound where
  form : Form
deriving DecidableEq, Repr

def NotFound.message (e : NotFound) : String := "no " ++ e.form.description ++ " found in document"

def dropExact? (word text : List Char) : Option (List Char) :=
  Text.dropMatch? (fun c d => c = d) word text

def dropFolded? (word text : List Char) : Option (List Char) :=
  Text.dropMatch? Text.foldsTo word text

def afterLineEnd? : List Char → Option (List Char)
  | '\n' :: body => some body
  | '\r' :: '\n' :: body => some body
  | _ => none

/-- What follows the line of an opening fence. Attributes may follow the language after a space or a
tab; the body starts on the next line. -/
def afterFence? (text : List Char) : Option (List Char) := do
  let rest ← dropExact? "```mermaid".toList text
  match rest with
  | c :: attributes =>
    if c = ' ' ∨ c = '\t' then afterLineEnd? (attributes.dropWhile (· ≠ '\n'))
    else afterLineEnd? rest
  | [] => none

def closesFence (text : List Char) : Bool := (dropExact? "```".toList text).isSome

/-- Whether the inner text of a tag names the class of diagrams. -/
def namesClass (tag : List Char) : Bool :=
  (Text.firstSome? (fun text => do
    let value ← dropFolded? "class=".toList text
    match value with
    | '"' :: name | '\'' :: name => dropFolded? "mermaid".toList name
    | name => dropFolded? "mermaid".toList name) tag).isSome

/-- What follows an opening container tag. -/
def afterContainerTag? (text : List Char) : Option (List Char) := do
  let rest ← dropFolded? "<div".toList text
  match rest.dropWhile (· ≠ '>') with
  | _ :: body => if namesClass (rest.takeWhile (· ≠ '>')) then some body else none
  | [] => none

def closesContainer (text : List Char) : Bool := (dropFolded? "</div>".toList text).isSome

/-- The body of the first block: what stands between the first opener and the next closer. -/
def body? (afterOpener? : List Char → Option (List Char)) (closes : List Char → Bool)
    (document : List Char) : Option (List Char) :=
  (Text.firstSome? afterOpener? document).bind (Text.before? closes)

def extract (form : Form) (document : String) : Except NotFound String :=
  let body := match form with
    | .fenced => body? afterFence? closesFence document.toList
    | .container => body? afterContainerTag? closesContainer document.toList
  match body with
  | some text => .ok (String.ofList (Text.trim text))
  | none => .error ⟨form⟩

end Diorama.Embedded
