import Diorama.Number.Decimal
import Diorama.Toml.Value

/-! # Scalars of TOML

Numbers, truth values and moments. The text of a scalar ends at the next separator, so that blanks
may stand in it, as between a date and a time. The form of a number is not always checked to the
end; where it is not, the number is `Value.unusable`.
-/

namespace Diorama.Toml

def isGap (c : Char) : Bool := c = ' ' || c = '\t'

def isApostrophe (c : Char) : Bool := c.toNat = 39

def isQuote (c : Char) : Bool := c = '"' || isApostrophe c

/-- The characters at which a scalar ends. -/
def isSeparator (c : Char) : Bool := "=,[]\x7b\x7d#\r\n".toList.contains c

/-- Digits between which single underscores may stand, without the underscores. -/
def digits? (isDigit : Char → Bool) (text : List Char) : Option (List Char) :=
  let groups := text.splitOn '_'
  if groups.all fun group => group ≠ [] ∧ group.all isDigit then some groups.flatten else none

/-- Decimal digits of which the first is not zero unless it is the only one. -/
def wholeDigits? (text : List Char) : Option (List Char) :=
  (digits? Char.isDigit text).filter fun digits => digits.head? ≠ some '0' || digits = ['0']

def isHexDigit (c : Char) : Bool := c.isDigit || ('a' ≤ c && c ≤ 'f') || ('A' ≤ c && c ≤ 'F')

def isOctalDigit (c : Char) : Bool := '0' ≤ c && c ≤ '7'

def isBinaryDigit (c : Char) : Bool := c = '0' || c = '1'

def digitValue (c : Char) : Nat :=
  if c.isDigit then c.toNat - '0'.toNat else c.toLower.toNat - 'a'.toNat + 10

def ofDigits (base : Nat) (digits : List Char) : Nat :=
  digits.foldl (fun n c => base * n + digitValue c) 0

/-- A whole number: signed in base ten, or without sign after `0x`, `0o` or `0b`. -/
def integer? (text : List Char) : Option Int :=
  let inBase (base : Nat) (isDigit : Char → Bool) (text : List Char) : Option Int :=
    (digits? isDigit text).map fun digits => (ofDigits base digits : Int)
  match text with
  | '0' :: 'x' :: rest => inBase 16 isHexDigit rest
  | '0' :: 'o' :: rest => inBase 8 isOctalDigit rest
  | '0' :: 'b' :: rest => inBase 2 isBinaryDigit rest
  | text =>
    let (negative, rest) := splitSign text
    (wholeDigits? rest).map fun digits =>
      if negative then -(ofDigits 10 digits : Int) else ofDigits 10 digits

/-- Whether a quoted text follows a tab. -/
def quotesAfterTab : List Char → Bool
  | '\t' :: c :: rest => isQuote c || quotesAfterTab (c :: rest)
  | _ :: rest => quotesAfterTab rest
  | [] => false

/-- The characters that do not make a number with underscores something else. -/
def isLooseChar (c : Char) : Bool := !(" .eE".toList.contains c)

/-- A number with underscores that is only checked next to them. Digits stand before the first
underscore, every other part starts with a digit of some base, and all but the last end with one. -/
def isLoose (text : List Char) : Bool :=
  match text.splitOn '_' with
  | first :: group :: groups =>
    let rest := group :: groups
    first.head?.any (· ≠ '0') && first.all Char.isDigit && rest.all (·.head?.any isHexDigit) &&
      rest.dropLast.all (·.getLast?.any isHexDigit) && text.all isLooseChar &&
      !quotesAfterTab text
  | _ => false

/-- A base without digits. -/
def isBareBase (text : List Char) : Bool := ["0x", "0o", "0b"].any (·.toList = text)

/-- A whole number, with or without value. -/
def wholeNumber? (text : List Char) : Option Value :=
  match integer? text with
  | some n => some (.integer n)
  | none => if isBareBase text ∨ isLoose (splitSign text).2 then some .unusable else none

def isExponentMark (c : Char) : Bool := c = 'e' || c = 'E'

/-- The digits of a fraction, point included, without underscores. -/
def fraction? : List Char → Option (List Char)
  | [] => some []
  | c :: rest => if c = '.' then (digits? Char.isDigit rest).map ('.' :: ·) else none

/-- The exponent, mark included, without underscores. -/
def power? : List Char → Option (List Char)
  | [] => some []
  | mark :: rest =>
    let digits := (splitSign rest).2
    (digits? Char.isDigit digits).map fun power =>
      mark :: rest.take (rest.length - digits.length) ++ power

/-- A number with a fraction, an exponent or both, or a special number. -/
def float? (text : List Char) : Option Value :=
  let (negative, rest) := splitSign text
  if rest = "inf".toList then some (.float (.infinite negative))
  else if rest = "nan".toList then some (.float .nan)
  else do
    let mantissa := rest.takeWhile (!isExponentMark ·)
    let whole ← wholeDigits? (mantissa.takeWhile (· ≠ '.'))
    let fraction ← fraction? (mantissa.dropWhile (· ≠ '.'))
    let power ← power? (rest.dropWhile (!isExponentMark ·))
    if fraction = [] ∧ power = [] then none
    else
      let value ← Decimal.ofText? (whole ++ fraction ++ power)
      let number : Double := .ofDecimal negative value
      return if number.isFinite then .float number else .unusable

/-- A number of exactly `width` digits within bounds. -/
def field? (width least greatest : Nat) (text : List Char) : Option Nat :=
  if text.length = width ∧ text.all Char.isDigit ∧ least ≤ natOfDigits text ∧
      natOfDigits text ≤ greatest then some (natOfDigits text)
  else none

def daysOfMonth (year month : Nat) : Nat :=
  if month = 2 then
    if year % 4 = 0 ∧ (year % 100 ≠ 0 ∨ year % 400 = 0) then 29 else 28
  else if month = 4 ∨ month = 6 ∨ month = 9 ∨ month = 11 then 30
  else 31

def isDate (text : List Char) : Bool :=
  match text.splitOn '-' with
  | [year, month, day] =>
    match field? 4 0 9999 year, field? 2 1 12 month with
    | some y, some m => (field? 2 1 (daysOfMonth y m) day).isSome
    | _, _ => false
  | _ => false

/-- Seconds, with or without a fraction. -/
def isSeconds (text : List Char) : Bool :=
  match text.splitOn '.' with
  | [seconds] => (field? 2 0 60 seconds).isSome
  | [seconds, fraction] =>
    (field? 2 0 60 seconds).isSome && fraction ≠ [] && fraction.all Char.isDigit
  | _ => false

/-- Hours and minutes, with or without seconds. -/
def isTime (text : List Char) : Bool :=
  match text.splitOn ':' with
  | [hours, minutes] => (field? 2 0 23 hours).isSome && (field? 2 0 59 minutes).isSome
  | [hours, minutes, seconds] =>
    (field? 2 0 23 hours).isSome && (field? 2 0 59 minutes).isSome && isSeconds seconds
  | _ => false

/-- The distance from universal time. -/
def isZone : List Char → Bool
  | [] => true
  | c :: rest =>
    if c = 'Z' ∨ c = 'z' then rest = []
    else match rest.splitOn ':' with
      | [hours, minutes] => (field? 2 0 23 hours).isSome && (field? 2 0 59 minutes).isSome
      | _ => false

def startsZone (c : Char) : Bool := c = 'Z' || c = 'z' || c = '+' || c = '-'

/-- A date, a time, or both with or without a zone. -/
def isMoment (text : List Char) : Bool :=
  isTime text || isDate text ||
    (isDate (text.take 10) &&
      match text.drop 10 with
      | c :: rest =>
        (c = 'T' || c = 't' || c = ' ') && isTime (rest.takeWhile (!startsZone ·)) &&
          isZone (rest.dropWhile (!startsZone ·))
      | [] => false)

def scalar? (text : List Char) : Option Value :=
  if text = "true".toList then some (.boolean true)
  else if text = "false".toList then some (.boolean false)
  else if isMoment text then some (.moment (String.ofList text))
  else (wholeNumber? text).or (float? text)

/-- A scalar at the start of a text, and what follows it. -/
def takeScalar? (text : List Char) : Option (Value × List Char) :=
  let token := (text.takeWhile (!isSeparator ·)).reverse.dropWhile isGap
  (scalar? token.reverse).map (·, text.dropWhile (!isSeparator ·))

end Diorama.Toml
