/-! # Searching

`firstSome? f` tries `f` on the suffixes of a text, the longest first. A marker in a text is found in
this way, and what stands before it is what the suffix leaves of the text.
-/

namespace Diorama.Text

/-- The first result of `f` on the suffixes of a text. -/
def firstSome? {α : Type} (f : List Char → Option α) : List Char → Option α
  | [] => f []
  | c :: text =>
    match f (c :: text) with
    | some a => some a
    | none => firstSome? f text

/-- The text before the first suffix that `starts`. -/
def before? (starts : List Char → Bool) (text : List Char) : Option (List Char) :=
  (firstSome? (fun suffix => if starts suffix then some suffix else none) text).map fun suffix =>
    text.take (text.length - suffix.length)

end Diorama.Text
