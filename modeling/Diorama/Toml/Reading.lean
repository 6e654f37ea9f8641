import Diorama.Toml.Quoted

/-! # Reading TOML

A document is a sequence of lines: keys with values, and headers that open the table to which the
keys below them belong. The readers of this module take a text and give what they have read
together with the rest of the text. Keys are bounded in length and values in depth; the readers of
lists are bounded by the length of the text.
-/

namespace Diorama.Toml

def isBareChar (c : Char) : Bool := c.isAlphanum || c = '_' || c = '-'

/-- One part of a key: a bare word or a quoted text. -/
def keyPart? (text : List Char) : Option (String × List Char) :=
  match text.takeWhile isBareChar with
  | [] => quoted? text
  | word => some (String.ofList word, text.dropWhile isBareChar)

/-- The number of parts of the longest key. -/
def maxKeyParts : Nat := 81

/-- The number of lists and inline tables that may stand in each other. -/
def maxDepth : Nat := 80

/-- The parts of a dotted key. Blanks may stand around the dots. -/
def keyParts? (bound : Nat) (text : List Char) : Option (List String × List Char) :=
  match bound with
  | 0 => none
  | bound + 1 => do
    let (part, rest) ← keyPart? text
    match rest.dropWhile isGap with
    | '.' :: more =>
      let (parts, rest) ← keyParts? bound (more.dropWhile isGap)
      return (part :: parts, rest)
    | rest => return ([part], rest)

/-- A key, split into the path to its table and its last part. -/
def key? (text : List Char) : Option ((List String × String) × List Char) := do
  let (parts, rest) ← keyParts? maxKeyParts text
  let last ← parts.getLast?
  return ((parts.dropLast, last), rest)

/-- Drops blanks, line breaks and comments. -/
def skipLayout (inComment : Bool) : List Char → List Char
  | [] => []
  | '\r' :: '\n' :: rest => skipLayout false rest
  | '\n' :: rest => skipLayout false rest
  | c :: rest =>
    if inComment then if isPlain c then skipLayout true rest else c :: rest
    else if c = '#' then skipLayout true rest
    else if isGap c then skipLayout false rest
    else c :: rest

mutual

/-- A value. Lists and inline tables are only read down to a depth. -/
def value? (bound depth : Nat) (text : List Char) : Option (Value × List Char) :=
  match bound with
  | 0 => none
  | bound + 1 =>
    match depth, text with
    | depth + 1, '[' :: rest => (items? bound depth (skipLayout false rest)).map
        fun (items, rest) => (.array false items, rest)
    | depth + 1, '\x7b' :: rest => (pairs? bound depth [] (skipLayout false rest)).map
        fun (entries, rest) => (.table .inline entries, rest)
    | _, text =>
      if opensLong text then (long? text).map fun (s, rest) => (.text s, rest)
      else ((quoted? text).map fun (s, rest) => (Value.text s, rest)).or (takeScalar? text)

/-- The items of a list up to its closing bracket. A comma may follow the last one. -/
def items? (bound depth : Nat) (text : List Char) : Option (List Value × List Char) :=
  match bound with
  | 0 => none
  | bound + 1 =>
    match text with
    | ']' :: rest => some ([], rest)
    | text => do
      let (item, rest) ← value? bound depth text
      match skipLayout false rest with
      | ',' :: rest =>
        let (items, rest) ← items? bound depth (skipLayout false rest)
        return (item :: items, rest)
      | ']' :: rest => return ([item], rest)
      | _ => none

/-- The pairs of an inline table up to its closing brace. Line breaks and comments may stand
everywhere but inside of a key, and a comma may follow the last pair. -/
def pairs? (bound depth : Nat) (entries : Entries) (text : List Char) :
    Option (Entries × List Char) :=
  match bound with
  | 0 => none
  | bound + 1 =>
    match text with
    | '\x7d' :: rest => some (entries, rest)
    | text => do
      let ((path, key), rest) ← key? text
      match skipLayout false rest with
      | '=' :: rest =>
        let (value, rest) ← value? bound depth (skipLayout false rest)
        let entries ← entries.addDotted path key value
        match skipLayout false rest with
        | ',' :: rest => pairs? bound depth entries (skipLayout false rest)
        | '\x7d' :: rest => return (entries, rest)
        | _ => none
      | _ => none

end

/-- What follows the end of a line. Blanks and a comment may stand before it. -/
def afterLine? (text : List Char) : Option (List Char) :=
  let text := text.dropWhile isGap
  let rest := if text.head? = some '#' then text.dropWhile isPlain else text
  if rest = [] then some [] else afterLineBreak? rest

/-- The document so far, and the path of the table that was opened last. -/
structure Progress where
  entries : Entries
  header : List String

/-- Reads a header or a key with its value, up to the end of the line. -/
def readLine (p : Progress) (text : List Char) : Option (Progress × List Char) :=
  match text with
  | '[' :: '[' :: rest => do
    let ((path, key), rest) ← key? (rest.dropWhile isGap)
    match rest with
    | ']' :: ']' :: rest =>
      return (⟨← p.entries.openListed path key, path ++ [key]⟩, ← afterLine? rest)
    | _ => none
  | '[' :: rest => do
    let ((path, key), rest) ← key? (rest.dropWhile isGap)
    match rest with
    | ']' :: rest =>
      return (⟨← p.entries.openTable path key, path ++ [key]⟩, ← afterLine? rest)
    | _ => none
  | text => do
    let ((path, key), rest) ← key? text
    match rest with
    | '=' :: rest =>
      let (value, rest) ← value? (rest.length + 1) maxDepth (rest.dropWhile isGap)
      return ({ p with entries := ← p.entries.addUnder p.header path key value },
        ← afterLine? rest)
    | _ => none

def readLines (bound : Nat) (p : Progress) (text : List Char) : Option Entries :=
  match bound, skipLayout false text with
  | _, [] => some p.entries
  | 0, _ => none
  | bound + 1, text => do
    let (p, rest) ← readLine p text
    readLines bound p rest

/-- The table of a document. A byte order mark may stand in front. -/
def read? (document : String) : Option Entries :=
  let text := match document.toList with
    | '\uFEFF' :: text => text
    | text => text
  readLines (text.length + 1) ⟨[], []⟩ text

end Diorama.Toml
