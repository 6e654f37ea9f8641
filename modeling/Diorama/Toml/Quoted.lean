import Diorama.Toml.Scalar

/-! # Quoted texts of TOML

Basic texts stand between quotation marks and have escapes, literal texts stand between apostrophes
and have none. Three marks enclose a text over many lines.
-/

namespace Diorama.Toml

/-- The characters that may stand for themselves on a line. -/
def isPlain (c : Char) : Bool := c = '\t' || (' ' ≤ c && c ≠ '\x7f')

/-- The character of an escape in base sixteen. -/
def scalarValue? (digits : List Char) : Option Char :=
  let n := ofDigits 16 digits
  if digits.all isHexDigit ∧ n.isValidChar then some (.ofNat n) else none

def simpleEscape? : Char → Option Char
  | 'b' => some '\x08'
  | 't' => some '\t'
  | 'n' => some '\n'
  | 'f' => some '\x0c'
  | 'r' => some '\r'
  | 'e' => some '\x1b'
  | '"' => some '"'
  | '\\' => some '\\'
  | _ => none

/-- Replaces the escapes of a basic text. -/
def unescape : List Char → Option (List Char)
  | '\\' :: 'x' :: a :: b :: rest => do
    return (← scalarValue? [a, b]) :: (← unescape rest)
  | '\\' :: 'u' :: a :: b :: c :: d :: rest => do
    return (← scalarValue? [a, b, c, d]) :: (← unescape rest)
  | '\\' :: 'U' :: a :: b :: c :: d :: e :: f :: g :: h :: rest => do
    return (← scalarValue? [a, b, c, d, e, f, g, h]) :: (← unescape rest)
  | '\\' :: c :: rest => do
    return (← simpleEscape? c) :: (← unescape rest)
  | c :: rest => do
    return c :: (← unescape rest)
  | [] => some []

/-- A basic text up to its closing mark, escapes kept, and what follows the mark. -/
def basicBody? : List Char → Option (List Char × List Char)
  | '"' :: rest => some ([], rest)
  | '\\' :: c :: rest =>
    if isPlain c then (basicBody? rest).map fun (body, after) => ('\\' :: c :: body, after)
    else none
  | c :: rest =>
    if isPlain c then (basicBody? rest).map fun (body, after) => (c :: body, after) else none
  | [] => none

/-- A literal text up to its closing apostrophe, and what follows. -/
def literalBody? : List Char → Option (List Char × List Char)
  | c :: rest =>
    if isApostrophe c then some ([], rest)
    else if isPlain c then (literalBody? rest).map fun (body, after) => (c :: body, after)
    else none
  | [] => none

/-- The text of one line between quotation marks or apostrophes. -/
def quoted? : List Char → Option (String × List Char)
  | c :: rest =>
    if c = '"' then do
      let (body, after) ← basicBody? rest
      return (String.ofList (← unescape body), after)
    else if isApostrophe c then (literalBody? rest).map fun (body, after) =>
      (String.ofList body, after)
    else none
  | [] => none

/-- The line breaks, and what follows one. -/
def afterLineBreak? : List Char → Option (List Char)
  | '\n' :: rest => some rest
  | '\r' :: '\n' :: rest => some rest
  | _ => none

/-- Up to three marks close a text of many lines; up to two more belong to the text. -/
def closeLong? (mark : Char) (text : List Char) : Option (List Char × List Char) :=
  let marks := (text.takeWhile (· = mark)).length
  if 3 ≤ marks then
    let kept := min (marks - 3) 2
    some (List.replicate kept mark, text.drop (kept + 3))
  else none

/-- A text of many lines up to its closing marks, and what follows them. A backslash keeps the next
character from being read as a mark if `escapes`. -/
def longBody? (mark : Char) (escapes : Bool) : List Char → Option (List Char × List Char)
  | [] => none
  | c :: rest =>
    match closeLong? mark (c :: rest) with
    | some closed => some closed
    | none =>
      match c, rest with
      | '\r', '\n' :: more => (longBody? mark escapes more).map fun (body, after) =>
        ('\n' :: body, after)
      | '\\', next :: more =>
        if escapes ∧ (isPlain next ∨ next = '\n') then
          (longBody? mark escapes more).map fun (body, after) => ('\\' :: next :: body, after)
        else if escapes ∧ next = '\r' ∧ more.head? = some '\n' then
          (longBody? mark escapes (next :: more)).map fun (body, after) => ('\\' :: body, after)
        else if escapes then none
        else (longBody? mark escapes (next :: more)).map fun (body, after) => ('\\' :: body, after)
      | c, rest =>
        if isPlain c ∨ c = '\n' then
          (longBody? mark escapes rest).map fun (body, after) => (c :: body, after)
        else none

/-- Whether a text has only blanks up to its first line break. -/
def breaksLine (text : List Char) : Bool := (text.dropWhile isGap).head? = some '\n'

/-- Drops every backslash at the end of a line together with the blanks that follow it. -/
def joinLines (dropping : Bool) : List Char → List Char
  | [] => []
  | '\\' :: c :: rest =>
    if breaksLine (c :: rest) then joinLines true (c :: rest)
    else '\\' :: c :: joinLines false rest
  | c :: rest =>
    if dropping ∧ (isGap c ∨ c = '\n') then joinLines true rest else c :: joinLines false rest

/-- The text between three marks; a line break right after the opening ones is dropped. -/
def long? : List Char → Option (String × List Char)
  | a :: b :: c :: rest => do
    let rest := (afterLineBreak? rest).getD rest
    if a = '"' ∧ b = '"' ∧ c = '"' then
      let (body, after) ← longBody? '"' true rest
      return (String.ofList (← unescape (joinLines false body)), after)
    else if isApostrophe a ∧ isApostrophe b ∧ isApostrophe c then
      (longBody? a false rest).map fun (body, after) => (String.ofList body, after)
    else none
  | _ => none

/-- Whether three equal marks open a text of many lines. -/
def opensLong : List Char → Bool
  | a :: b :: c :: _ => a = b && b = c && (a = '"' || isApostrophe a)
  | _ => false

end Diorama.Toml
