/-! # Base 64

Three bytes are written as four digits; a last group that is not full is filled up with `=`.
-/

namespace Diorama.Base64

def digit (n : Nat) : Char :=
  if n < 26 then .ofNat ('A'.toNat + n)
  else if n < 52 then .ofNat ('a'.toNat + (n - 26))
  else if n < 62 then .ofNat ('0'.toNat + (n - 52))
  else if n = 62 then '+'
  else '/'

/-- A digit of a group of 24 bits, the last place being zero. -/
def groupDigit (group place : Nat) : Char := digit (group >>> (6 * place) % 64)

/-- Appends the digits to a text that is written backwards. -/
def encodeOnto (written : List Char) : List UInt8 → List Char
  | [] => written
  | [a] =>
    let group := a.toNat * 65536
    '=' :: '=' :: groupDigit group 2 :: groupDigit group 3 :: written
  | [a, b] =>
    let group := a.toNat * 65536 + b.toNat * 256
    '=' :: groupDigit group 1 :: groupDigit group 2 :: groupDigit group 3 :: written
  | a :: b :: c :: bytes =>
    let group := a.toNat * 65536 + b.toNat * 256 + c.toNat
    encodeOnto (groupDigit group 0 :: groupDigit group 1 :: groupDigit group 2 ::
      groupDigit group 3 :: written) bytes

def encode (bytes : List UInt8) : List Char := (encodeOnto [] bytes).reverse

end Diorama.Base64
