import Diorama.Number.Decimal

/-!
# Reading JSON documents

A reader of JSON texts by their grammar. It knows nothing of how documents are written here: blanks may
stand between any two tokens, every escape is understood, and numbers are taken as they are written. The
result is a `Datum`.
-/

namespace Diorama.Json

/-- What a JSON text says. Numbers keep their text. -/
inductive Datum where
  | null
  | boolean (b : Bool)
  | number (text : List Char)
  | string (s : String)
  | array (items : List Datum)
  | object (members : List (String × Datum))

def isSpace (c : Char) : Bool := c = ' ' || c = '\t' || c = '\n' || c = '\r'

def skipSpace (text : List Char) : List Char := text.dropWhile isSpace

/-- Drops a word. -/
def word? (word text : List Char) : Option (List Char) :=
  if word.isPrefixOf text then some (text.drop word.length) else none

/-! ### Strings -/

def hexValue? (c : Char) : Option Nat :=
  if c.isDigit then some (c.toNat - '0'.toNat)
  else if 'a' ≤ c ∧ c ≤ 'f' then some (10 + (c.toNat - 'a'.toNat))
  else if 'A' ≤ c ∧ c ≤ 'F' then some (10 + (c.toNat - 'A'.toNat))
  else none

/-- A code unit of four digits in base sixteen. -/
def codeUnit? : List Char → Option (Nat × List Char)
  | a :: b :: c :: d :: rest => do
    let unit ← [a, b, c, d].foldlM (fun n c => (hexValue? c).map (16 * n + ·)) 0
    return (unit, rest)
  | _ => none

/-- A character by its code unit, or by the two that make it up. -/
def codedCharacter? (text : List Char) : Option (Char × List Char) := do
  let (unit, rest) ← codeUnit? text
  if unit < 0xD800 ∨ 0xDFFF < unit then return (.ofNat unit, rest)
  else
    let rest ← word? ['\\', 'u'] rest
    let (low, rest) ← codeUnit? rest
    if unit < 0xDC00 ∧ 0xDC00 ≤ low ∧ low ≤ 0xDFFF then
      return (.ofNat (0x10000 + (unit - 0xD800) * 0x400 + (low - 0xDC00)), rest)
    else none

/-- What follows a backslash. -/
def escaped? : List Char → Option (Char × List Char)
  | '"' :: rest => some ('"', rest)
  | '\\' :: rest => some ('\\', rest)
  | '/' :: rest => some ('/', rest)
  | 'b' :: rest => some ('\x08', rest)
  | 'f' :: rest => some ('\x0c', rest)
  | 'n' :: rest => some ('\n', rest)
  | 'r' :: rest => some ('\r', rest)
  | 't' :: rest => some ('\t', rest)
  | 'u' :: rest => codedCharacter? rest
  | _ => none

/-- A character of a string. -/
def character? : List Char → Option (Char × List Char)
  | [] => none
  | c :: rest =>
    if c = '\\' then escaped? rest
    else if c = '"' ∨ c.toNat < 0x20 then none
    else some (c, rest)

/-- The characters of a string up to its end. -/
def characters? : Nat → List Char → Option (List Char × List Char)
  | 0, _ => none
  | bound + 1, text =>
    if text.head? = some '"' then some ([], text.tail)
    else do
      let (c, rest) ← character? text
      let (chars, rest) ← characters? bound rest
      return (c :: chars, rest)

/-- A string with its quotation marks. -/
def string? (bound : Nat) (text : List Char) : Option (String × List Char) := do
  let rest ← word? ['"'] text
  let (chars, rest) ← characters? bound rest
  return (String.ofList chars, rest)

/-! ### Numbers -/

/-- A run of digits, at least one. -/
def digits? (text : List Char) : Option (List Char × List Char) :=
  if text.takeWhile Char.isDigit = [] then none
  else some (text.takeWhile Char.isDigit, text.dropWhile Char.isDigit)

/-- The point and the digits behind it, if there are any. -/
def fraction? (text : List Char) : Option (List Char × List Char) :=
  match word? ['.'] text with
  | none => some ([], text)
  | some rest => (digits? rest).map fun (digits, rest) => ('.' :: digits, rest)

/-- The sign that an exponent may have. -/
def exponentSign : List Char → List Char × List Char
  | '+' :: rest => (['+'], rest)
  | '-' :: rest => (['-'], rest)
  | text => ([], text)

/-- The power of ten, if there is one. -/
def exponent? : List Char → Option (List Char × List Char)
  | [] => some ([], [])
  | c :: rest =>
    if c = 'e' ∨ c = 'E' then
      let (sign, rest) := exponentSign rest
      (digits? rest).map fun (digits, rest) => (c :: (sign ++ digits), rest)
    else some ([], c :: rest)

/-- The text of a number. No zero comes before other digits. -/
def number? (text : List Char) : Option (List Char × List Char) := do
  let (sign, rest) := if text.head? = some '-' then (['-'], text.tail) else ([], text)
  let (whole, rest) ← digits? rest
  if whole.head? = some '0' ∧ whole ≠ ['0'] then none
  else
    let (fraction, rest) ← fraction? rest
    let (exponent, rest) ← exponent? rest
    return (sign ++ (whole ++ (fraction ++ exponent)), rest)

/-! ### Values -/

/-- Whether a number starts with this character. -/
def startsNumber (c : Char) : Bool := c.isDigit || c = '-'

/-- The values that are words. -/
def name? (text : List Char) : Option (Datum × List Char) :=
  ((word? "null".toList text).map (Datum.null, ·)).or
    (((word? "true".toList text).map (Datum.boolean true, ·)).or
      ((word? "false".toList text).map (Datum.boolean false, ·)))

mutual

/-- A value at the start of a text. -/
def value? : Nat → List Char → Option (Datum × List Char)
  | 0, _ => none
  | _ + 1, [] => none
  | bound + 1, c :: rest =>
    if c = '"' then (string? bound (c :: rest)).map fun (s, rest) => (.string s, rest)
    else if c = '[' then
      if (skipSpace rest).head? = some ']' then some (.array [], (skipSpace rest).tail)
      else (items? bound rest).map fun (items, rest) => (.array items, rest)
    else if c = '\x7b' then
      if (skipSpace rest).head? = some '\x7d' then some (.object [], (skipSpace rest).tail)
      else (members? bound rest).map fun (members, rest) => (.object members, rest)
    else if startsNumber c then (number? (c :: rest)).map fun (text, rest) => (.number text, rest)
    else name? (c :: rest)

/-- The items of an array up to its end. -/
def items? : Nat → List Char → Option (List Datum × List Char)
  | 0, _ => none
  | bound + 1, text => do
    let (item, rest) ← value? bound (skipSpace text)
    let rest := skipSpace rest
    if rest.head? = some ']' then return ([item], rest.tail)
    else
      let rest ← word? [','] rest
      let (items, rest) ← items? bound rest
      return (item :: items, rest)

/-- The members of an object up to its end. -/
def members? : Nat → List Char → Option (List (String × Datum) × List Char)
  | 0, _ => none
  | bound + 1, text => do
    let (name, rest) ← string? bound (skipSpace text)
    let rest ← word? [':'] (skipSpace rest)
    let (value, rest) ← value? bound (skipSpace rest)
    let rest := skipSpace rest
    if rest.head? = some '\x7d' then return ([(name, value)], rest.tail)
    else
      let rest ← word? [','] rest
      let (members, rest) ← members? bound rest
      return ((name, value) :: members, rest)

end

/-- Reads a document: one value, with blanks around it. -/
def read? (text : String) : Option Datum := do
  let (value, rest) ← value? text.length (skipSpace text.toList)
  if skipSpace rest = [] then return value else none

/-! ### Parts of a document -/

namespace Datum

/-- The first member of that name. -/
def member? (name : String) : Datum → Option Datum
  | .object members => members.lookup name
  | _ => none

def item? (index : Nat) : Datum → Option Datum
  | .array items => items[index]?
  | _ => none

def items? : Datum → Option (List Datum)
  | .array items => some items
  | _ => none

def string? : Datum → Option String
  | .string s => some s
  | _ => none

/-- A number that is written without sign, point and exponent. -/
def natural? : Datum → Option Nat
  | .number text => if text.all Char.isDigit then some (natOfDigits text) else none
  | _ => none

/-- The values of an object whose members have these names, in this order. -/
def values? (names : List String) : Datum → Option (List Datum)
  | .object members => if members.map Prod.fst = names then some (members.map Prod.snd) else none
  | _ => none

/-- An array, every item of which is read. -/
def list? {α : Type} (read : Datum → Option α) (d : Datum) : Option (List α) :=
  d.items?.bind (·.mapM read)

/-- A value that may be absent. Then `null` stands in its place. -/
def optional? {α : Type} (read : Datum → Option α) : Datum → Option (Option α)
  | .null => some none
  | d => (read d).map some

/-- The nearest number of a format. -/
def binary? {F : Format} : Datum → Option (Binary F)
  | .number text => Binary.ofText? text
  | _ => none

end Datum

end Diorama.Json
