/-! # Blank characters

The white space of the Unicode character database, and trimming by it.
-/

namespace Diorama.Text

/-- The white space characters of Unicode. -/
def isBlank (c : Char) : Bool :=
  ('\t' ≤ c ∧ c ≤ '\r') ∨ c = ' ' ∨ c = '\u0085' ∨ c = '\u00A0' ∨ c = '\u1680' ∨
    ('\u2000' ≤ c ∧ c ≤ '\u200A') ∨ c = '\u2028' ∨ c = '\u2029' ∨ c = '\u202F' ∨ c = '\u205F' ∨
    c = '\u3000'

def trimStart (text : List Char) : List Char := text.dropWhile isBlank

def trimEnd (text : List Char) : List Char := (text.reverse.dropWhile isBlank).reverse

def trim (text : List Char) : List Char := trimEnd (trimStart text)

/-- The maximal runs without blanks. -/
def words (text : List Char) : List (List Char) := (text.splitOnP isBlank).filter (· ≠ [])

/-- The number of bytes of the UTF-8 form. -/
def byteLength (text : List Char) : Nat := text.foldr (fun c n => c.utf8Size + n) 0

end Diorama.Text
