import Diorama.Document.Embedded
import Diorama.Files.Path

/-! # Source formats

Where the diagram stands in an input document. The format is given, or follows from the name of
the file, or both embedded forms are tried.
-/

namespace Diorama

inductive SourceFormat where
  | auto
  | markdown
  | html
  | raw
deriving DecidableEq, Repr

namespace SourceFormat

/-- The format that a file extension in lower case stands for. -/
def ofExtension : String → SourceFormat
  | "md" | "markdown" => .markdown
  | "html" | "htm" => .html
  | "mmd" | "mermaid" => .raw
  | _ => .auto

/-- Replaces `auto` by the format that the path suggests. -/
def resolve (format : SourceFormat) (path : String) : SourceFormat :=
  match format with
  | .auto =>
    match Path.extension? path with
    | some extension => ofExtension (String.ofList (extension.toList.map Char.toLower))
    | none => .auto
  | format => format

/-- The text of the diagram without surrounding blanks. -/
def extract (format : SourceFormat) (document : String) : Except Embedded.NotFound String :=
  match format with
  | .markdown => Embedded.extract .fenced document
  | .html => Embedded.extract .container document
  | .raw => .ok (String.ofList (Text.trim document.toList))
  | .auto =>
    match Embedded.extract .fenced document with
    | .ok text => .ok text
    | .error _ => Embedded.extract .container document

end SourceFormat

end Diorama
