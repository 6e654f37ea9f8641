/-! # Matching without regard to case -/

namespace Diorama.Text

/-- Whether two characters agree up to ASCII case. -/
def sameLetter (c d : Char) : Bool := c.toLower = d.toLower

/-- Simple case folding as far as it reaches ASCII: the capital letters, the long s and the Kelvin
sign are the characters that fold to an ASCII letter. -/
def fold (c : Char) : Char :=
  if c = '\u017F' then 's' else if c = '\u212A' then 'k' else c.toLower

/-- Whether an ASCII character and any character agree up to case folding. -/
def foldsTo (c d : Char) : Bool := c = fold d

/-- What follows `word` at the start of a text, if the text starts with it up to `same`. -/
def dropMatch? (same : Char → Char → Bool) : List Char → List Char → Option (List Char)
  | [], text => some text
  | _ :: _, [] => none
  | w :: word, c :: text => if same w c then dropMatch? same word text else none

/-- What follows `word` in any ASCII case. -/
def dropWord? (word text : List Char) : Option (List Char) := dropMatch? sameLetter word text

end Diorama.Text
