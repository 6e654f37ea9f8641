import Diorama.Number.Style

/-! # JSON documents

A document is a tree whose objects keep the order of their fields. `Value.text` writes it over many
lines, each level indented by two blanks.
-/

namespace Diorama.Json

inductive Value where
  | null
  | natural (n : Nat)
  | double (x : Double)
  | single (x : Single)
  | string (s : String)
  | array (items : List Value)
  | object (fields : List (String × Value))
deriving Repr

/-- Numbers of 64 bits have an exponent below `0.00001` and from ten to the sixteenth on. -/
def doubleStyle : NumberStyle where
  tie := .toEven
  positional := some (-4, 16)
  wholeEnd := ".0"
  infinity _ := "null"
  nan := "null"

/-- Numbers of 32 bits have an exponent below `0.000001` and from ten to the thirteenth on. -/
def singleStyle : NumberStyle := { doubleStyle with positional := some (-5, 13) }

/-- Two digits in base sixteen. -/
def hexPair (n : Nat) : List Char := [Nat.digitChar (n / 16 % 16), Nat.digitChar (n % 16)]

/-- A character of a text: quotation marks, backslashes and control characters are escaped. -/
def escape (c : Char) : List Char :=
  if c = '"' then ['\\', '"']
  else if c = '\\' then ['\\', '\\']
  else if c = '\x08' then ['\\', 'b']
  else if c = '\x0c' then ['\\', 'f']
  else if c = '\n' then ['\\', 'n']
  else if c = '\r' then ['\\', 'r']
  else if c = '\t' then ['\\', 't']
  else if c.toNat < 0x20 then '\\' :: 'u' :: '0' :: '0' :: hexPair c.toNat
  else [c]

def stringText (s : String) : List Char := '"' :: (s.toList.flatMap escape ++ ['"'])

/-- The start of a line at a level. -/
def newLine (level : Nat) : List Char := '\n' :: List.replicate (2 * level) ' '

namespace Value

mutual

/-- A value whose last line stands at `level`. -/
def textAt (level : Nat) : Value → List Char
  | .null => "null".toList
  | .natural n => Nat.toDigits 10 n
  | .double x => doubleStyle.text x
  | .single x => singleStyle.text x
  | .string s => stringText s
  | .array [] => ['[', ']']
  | .array (item :: items) =>
    '[' :: (newLine (level + 1) ++ textAt (level + 1) item ++ moreItems level items ++
      newLine level ++ [']'])
  | .object [] => ['\x7b', '\x7d']
  | .object ((name, value) :: fields) =>
    '\x7b' :: (newLine (level + 1) ++ stringText name ++ [':', ' '] ++ textAt (level + 1) value ++
      moreFields level fields ++ newLine level ++ ['\x7d'])

/-- The items after the first one. -/
def moreItems (level : Nat) : List Value → List Char
  | [] => []
  | item :: items =>
    ',' :: (newLine (level + 1) ++ textAt (level + 1) item ++ moreItems level items)

/-- The fields after the first one. -/
def moreFields (level : Nat) : List (String × Value) → List Char
  | [] => []
  | (name, value) :: fields =>
    ',' :: (newLine (level + 1) ++ stringText name ++ [':', ' '] ++ textAt (level + 1) value ++
      moreFields level fields)

end

def text (v : Value) : String := String.ofList (textAt 0 v)

def ofOption {α : Type} (f : α → Value) : Option α → Value
  | none => .null
  | some a => f a

end Value

end Diorama.Json
