import Diorama.Number.Shortest

/-! # Number text

A `NumberStyle` holds every decision about how a number is written; the digits are always the
shortest ones.
-/

namespace Diorama

/-- How numbers are written. -/
structure NumberStyle where
  /-- Which of two equally near digit strings is taken. -/
  tie : Tie
  /-- The least and the greatest position of the decimal point that is written out; numbers outside
  have an exponent. Without bounds all numbers are written out. -/
  positional : Option (Int × Int)
  /-- What follows the digits of a whole number. -/
  wholeEnd : String
  /-- The infinity of either sign. -/
  infinity : Bool → String
  nan : String

/-- Every number is written out, and whole numbers have no point. -/
def NumberStyle.plain : NumberStyle where
  tie := .up
  positional := none
  wholeEnd := ""
  infinity negative := if negative then "-inf" else "inf"
  nan := "NaN"

namespace DigitString

/-- The digits with the point in its place, filled with zeros where needed. -/
def positional (wholeEnd : String) (d : DigitString) : List Char :=
  if d.point ≤ 0 then '0' :: '.' :: (List.replicate (-d.point).toNat '0' ++ d.digits)
  else if d.digits.length ≤ d.point.toNat then
    d.digits ++ List.replicate (d.point.toNat - d.digits.length) '0' ++ wholeEnd.toList
  else d.digits.take d.point.toNat ++ '.' :: d.digits.drop d.point.toNat

/-- One digit before the point, and a signed power of ten. -/
def scientific (d : DigitString) : List Char :=
  let power := d.point - 1
  d.digits.take 1 ++ (if d.digits.length ≤ 1 then [] else '.' :: d.digits.drop 1) ++
    'e' :: (if power < 0 then '-' else '+') :: Nat.toDigits 10 power.natAbs

end DigitString

namespace NumberStyle

/-- A positive magnitude. -/
def magnitudeText (style : NumberStyle) (F : Format) (magnitude : Nat) : List Char :=
  let d := DigitString.ofDecimal (F.shortest style.tie magnitude)
  match style.positional with
  | none => d.positional style.wholeEnd
  | some (least, greatest) =>
    if least ≤ d.point ∧ d.point ≤ greatest then d.positional style.wholeEnd else d.scientific

def signText (negative : Bool) : List Char := if negative then ['-'] else []

/-- The text of a number; zero keeps its sign. -/
def text {F : Format} (style : NumberStyle) : Binary F → List Char
  | .finite negative magnitude _ =>
    signText negative ++
      (if magnitude = 0 then '0' :: style.wholeEnd.toList else style.magnitudeText F magnitude)
  | .infinite negative => (style.infinity negative).toList
  | .nan => style.nan.toList

end NumberStyle

end Diorama
