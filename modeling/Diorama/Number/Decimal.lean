import Diorama.Number.Binary

/-! # Reading decimals

A decimal is a whole number times a power of ten. `Binary.ofDecimal` is the nearest number of a
format and `Binary.ofText?` reads the written form: an optional sign, then `inf`, `infinity` or
`nan` in any letter case, or digits with at most one point and an optional exponent.
-/

namespace Diorama

/-- The value `digits * 10 ^ exponent`. -/
structure Decimal where
  digits : Nat
  exponent : Int
deriving DecidableEq, Repr

/-- The position of the decimal point, counted from the first digit. -/
def Decimal.pointPosition (d : Decimal) : Int :=
  (Nat.toDigits 10 d.digits).length + d.exponent

/-- The nearest number. A decimal that is far outside of the format's range is decided by the
position of its point alone, so that no power larger than the format needs is ever built. -/
def Binary.ofDecimal {F : Format} (negative : Bool) (d : Decimal) : Binary F :=
  if d.digits = 0 ∨ d.pointPosition < -F.point then ofMagnitude negative 0
  else if F.point < d.pointPosition then .infinite negative
  else match d.exponent with
    | .ofNat n => ofUnits negative (d.digits * Nat.pow 10 n * F.one) 1
    | .negSucc n => ofUnits negative (d.digits * F.one) (Nat.pow 10 (n + 1))

/-- The number that a run of digits denotes. -/
def natOfDigits (digits : List Char) : Nat :=
  digits.foldl (fun n c => 10 * n + (c.toNat - '0'.toNat)) 0

/-- Drops a leading sign and says whether it was a minus. -/
def splitSign : List Char → Bool × List Char
  | '-' :: rest => (true, rest)
  | '+' :: rest => (false, rest)
  | rest => (false, rest)

/-- The number that the digits of an exponent denote. From `65536` on it is large enough, and
further digits are passed over. -/
def exponentOfDigits (digits : List Char) : Nat :=
  digits.foldl (fun n c => if n < 65536 then 10 * n + (c.toNat - '0'.toNat) else n) 0

/-- The exponent part: nothing, or `e`, an optional sign and at least one digit. -/
def exponentOfText? : List Char → Option Int
  | [] => some 0
  | c :: rest =>
    let (negative, digits) := splitSign rest
    if c.toLower = 'e' ∧ digits ≠ [] ∧ digits.all Char.isDigit then
      some (if negative then -(exponentOfDigits digits : Int) else exponentOfDigits digits)
    else none

/-- Digits with at most one point and at least one digit, then the exponent part. -/
def Decimal.ofText? (text : List Char) : Option Decimal :=
  let whole := text.takeWhile Char.isDigit
  let afterWhole := text.dropWhile Char.isDigit
  let fraction := if afterWhole.head? = some '.' then afterWhole.tail.takeWhile Char.isDigit else []
  let rest := if afterWhole.head? = some '.' then afterWhole.tail.dropWhile Char.isDigit
    else afterWhole
  if whole = [] ∧ fraction = [] then none
  else (exponentOfText? rest).map fun exponent =>
    ⟨natOfDigits (whole ++ fraction), exponent - fraction.length⟩

/-- The number that a text denotes, rounded to the nearest. -/
def Binary.ofText? {F : Format} (text : List Char) : Option (Binary F) :=
  let (negative, rest) := splitSign text
  let word := String.ofList (rest.map Char.toLower)
  if word = "inf" ∨ word = "infinity" then some (.infinite negative)
  else if word = "nan" then some .nan
  else (Decimal.ofText? rest).map (Binary.ofDecimal negative)

end Diorama
