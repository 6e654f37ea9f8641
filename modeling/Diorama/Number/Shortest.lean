import Diorama.Number.Decimal

/-! # Shortest digits

`Binary.shortest` gives a magnitude the fewest decimal digits that read back as that magnitude, and
among those the ones nearest to it. On the grid of decimals with a given number of digits only the
two neighbours of the value matter: if any point of the grid reads back, one of them does.
-/

namespace Diorama

/-- Decimal digits, the first of them not zero, with the point after `point` of them. -/
structure DigitString where
  digits : List Char
  point : Int
deriving DecidableEq, Repr

/-- Writes the digits without trailing zeros. -/
def DigitString.ofDecimal (d : Decimal) : DigitString :=
  ⟨((Nat.toDigits 10 d.digits).reverse.dropWhile (· = '0')).reverse, d.pointPosition⟩

namespace Format

/-- The number of digits of `n`, none for zero. -/
def digitCount (n : Nat) : Nat := if n = 0 then 0 else (Nat.toDigits 10 n).length

/-- The position of the decimal point in the value of a positive magnitude. -/
def pointPosition (F : Format) (magnitude : Nat) : Int :=
  if F.units magnitude < F.one then
    1 - (digitCount ((F.one - 1) / F.units magnitude) : Int)
  else digitCount (F.units magnitude / F.one)

/-- The two neighbours of a magnitude's value on the grid of multiples of `10 ^ exponent`, the nearer
one first. -/
def gridNeighbours (F : Format) (tie : Tie) (magnitude : Nat) (exponent : Int) : List Decimal :=
  let num := F.units magnitude * Nat.pow 10 (-exponent).toNat
  let den := F.one * Nat.pow 10 exponent.toNat
  let below : Decimal := ⟨num / den, exponent⟩
  let above : Decimal := ⟨num / den + 1, exponent⟩
  if tie.roundsUp (num / den) (num % den) den then [above, below] else [below, above]

/-- Whether the magnitude nearest to a decimal is the given one. -/
def readsBack (F : Format) (magnitude : Nat) (d : Decimal) : Bool :=
  (Binary.ofDecimal false d : Binary F) = .ofMagnitude false magnitude

/-- The exact value of a magnitude; a power of two divides a power of ten. -/
def exactDecimal (F : Format) (magnitude : Nat) : Decimal :=
  ⟨F.units magnitude * Nat.pow 5 F.point, -F.point⟩

/-- The fewest digits that read back, at most seventeen being needed. -/
def shortest (F : Format) (tie : Tie) (magnitude : Nat) : Decimal :=
  let point := F.pointPosition magnitude
  ((List.range 17).findSome? fun n : Nat =>
    (F.gridNeighbours tie magnitude (point - n - 1)).find? (F.readsBack magnitude)).getD
      (F.exactDecimal magnitude)

end Format

end Diorama
