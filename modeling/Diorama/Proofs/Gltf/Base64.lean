import Mathlib.Algebra.Group.Nat.Defs
import Diorama.Gltf.Base64

/-!
# Base 64 read back

`decode?` reads texts in base 64: four digits are three bytes, and only a last group may be filled up,
the bits behind its bytes being zero. What is written is read back (`decode?_encode`).
-/

namespace Diorama.Base64

/-- The value of a digit. -/
def value? (c : Char) : Option Nat :=
  if c.isUpper then some (c.toNat - 'A'.toNat)
  else if c.isLower then some (26 + (c.toNat - 'a'.toNat))
  else if c.isDigit then some (52 + (c.toNat - '0'.toNat))
  else if c = '+' then some 62
  else if c = '/' then some 63
  else none

/-- The number that some digits denote. -/
def number? (digits : List Char) : Option Nat :=
  digits.foldlM (fun n c => (value? c).map (64 * n + ·)) 0

/-- The first `count` bytes of a group of three. -/
def groupBytes (count group : Nat) : List UInt8 :=
  (List.range count).map fun place => .ofNat (group >>> (16 - 8 * place))

/-- The bytes of four characters, of which the last ones may be filling. -/
def quantum? (a b c d : Char) : Option (List UInt8) :=
  if c = '=' ∧ d = '=' then do
    let n ← number? [a, b]
    if n % 16 = 0 then return groupBytes 1 (n * 4096) else none
  else if d = '=' then do
    let n ← number? [a, b, c]
    if n % 4 = 0 then return groupBytes 2 (n * 64) else none
  else do
    let n ← number? [a, b, c, d]
    return groupBytes 3 n

/-- Reads a text in base 64. -/
def decode? : List Char → Option (List UInt8)
  | [] => some []
  | a :: b :: c :: d :: rest => do
    let bytes ← quantum? a b c d
    if d = '=' ∧ rest ≠ [] then none
    else
      let more ← decode? rest
      return bytes ++ more
  | _ => none

/-! ### Digits -/

theorem value?_digit {n : Nat} (hn : n < 64) : value? (digit n) = some n := by
  revert n
  decide

theorem digit_ne_filling {n : Nat} (hn : n < 64) : digit n ≠ '=' := by
  intro h
  have hValue := value?_digit hn
  rw [h] at hValue
  cases hValue

theorem groupDigit_ne_filling (group place : Nat) : groupDigit group place ≠ '=' :=
  digit_ne_filling (Nat.mod_lt _ (by decide))

/-- One more digit of a group. -/
theorem number?_concat_groupDigit {digits : List Char} {group place : Nat}
    (h : number? digits = some (group >>> (6 * (place + 1)))) :
    number? (digits ++ [groupDigit group place]) = some (group >>> (6 * place)) := by
  have hDigit : value? (groupDigit group place) = some (group >>> (6 * place) % 64) :=
    value?_digit (Nat.mod_lt _ (by decide))
  have hStep : 64 * (group >>> (6 * (place + 1))) + group >>> (6 * place) % 64 =
      group >>> (6 * place) := by
    rw [Nat.mul_add, Nat.shiftRight_add, Nat.shiftRight_eq_div_pow _ (6 * 1)]
    exact Nat.div_add_mod _ 64
  rw [number?, List.foldlM_append]
  show (number? digits).bind _ = _
  rw [h, Option.bind_some]
  show ((value? (groupDigit group place)).map (64 * (group >>> (6 * (place + 1))) + ·)).bind _ = _
  rw [hDigit, Option.map_some, hStep]
  rfl

theorem number?_groupDigits {group : Nat} (hGroup : group < 2 ^ 24) :
    number? [groupDigit group 3, groupDigit group 2] = some (group >>> 12) ∧
      number? [groupDigit group 3, groupDigit group 2, groupDigit group 1] = some (group >>> 6) ∧
      number? [groupDigit group 3, groupDigit group 2, groupDigit group 1, groupDigit group 0] =
        some group := by
  have hNone : number? [] = some (group >>> (6 * (3 + 1))) := by
    rw [Nat.shiftRight_eq_div_pow, Nat.div_eq_of_lt hGroup]
    rfl
  have hOne := number?_concat_groupDigit hNone
  have hTwo := number?_concat_groupDigit hOne
  have hThree := number?_concat_groupDigit hTwo
  exact ⟨hTwo, hThree, number?_concat_groupDigit hThree⟩

/-! ### Groups of bytes -/

theorem ofNat_shiftRight_eq {group place : Nat} {byte : UInt8}
    (h : group / 2 ^ place % 256 = byte.toNat) : UInt8.ofNat (group >>> place) = byte := by
  rw [← UInt8.toNat_inj, UInt8.toNat_ofNat', Nat.shiftRight_eq_div_pow]
  exact h

/-- The bytes of a group are those that it is made of. -/
theorem groupBytes_eq (a b c : UInt8) :
    groupBytes 3 (a.toNat * 65536 + b.toNat * 256 + c.toNat) = [a, b, c] := by
  have ha := a.toNat_lt
  have hb := b.toNat_lt
  have hc := c.toNat_lt
  have hHigh : UInt8.ofNat ((a.toNat * 65536 + b.toNat * 256 + c.toNat) >>> 16) = a :=
    ofNat_shiftRight_eq (by omega)
  have hMiddle : UInt8.ofNat ((a.toNat * 65536 + b.toNat * 256 + c.toNat) >>> 8) = b :=
    ofNat_shiftRight_eq (by omega)
  have hLow : UInt8.ofNat ((a.toNat * 65536 + b.toNat * 256 + c.toNat) >>> 0) = c :=
    ofNat_shiftRight_eq (by omega)
  show [UInt8.ofNat (_ >>> 16), UInt8.ofNat (_ >>> 8), UInt8.ofNat (_ >>> 0)] = _
  rw [hHigh, hMiddle, hLow]

theorem groupBytes_eq_take {count : Nat} (hCount : count ≤ 3) (group : Nat) :
    groupBytes count group = (groupBytes 3 group).take count := by
  rw [groupBytes, groupBytes, ← List.map_take, List.take_range, Nat.min_eq_left hCount]

theorem group_lt (a b c : UInt8) : a.toNat * 65536 + b.toNat * 256 + c.toNat < 2 ^ 24 := by
  have ha := a.toNat_lt
  have hb := b.toNat_lt
  have hc := c.toNat_lt
  omega

theorem quantum?_one (a : UInt8) : quantum? (groupDigit (a.toNat * 65536) 3)
    (groupDigit (a.toNat * 65536) 2) '=' '=' = some [a] := by
  have hGroup := group_lt a 0 0
  have hBytes := groupBytes_eq a 0 0
  simp only [UInt8.toNat_zero, Nat.zero_mul, Nat.add_zero] at hGroup hBytes
  have hShift : (a.toNat * 65536) >>> 12 = a.toNat * 16 := by
    rw [Nat.shiftRight_eq_div_pow]
    omega
  rw [quantum?, if_pos ⟨rfl, rfl⟩, (number?_groupDigits hGroup).1, hShift, Option.bind_eq_bind,
    Option.bind_some, if_pos (Nat.mul_mod_left _ _), Nat.mul_assoc,
    groupBytes_eq_take (by decide), hBytes]
  rfl

theorem quantum?_two (a b : UInt8) : quantum? (groupDigit (a.toNat * 65536 + b.toNat * 256) 3)
    (groupDigit (a.toNat * 65536 + b.toNat * 256) 2)
    (groupDigit (a.toNat * 65536 + b.toNat * 256) 1) '=' = some [a, b] := by
  have hGroup := group_lt a b 0
  have hBytes := groupBytes_eq a b 0
  simp only [UInt8.toNat_zero, Nat.add_zero] at hGroup hBytes
  have hShift : (a.toNat * 65536 + b.toNat * 256) >>> 6 = (a.toNat * 256 + b.toNat) * 4 := by
    rw [Nat.shiftRight_eq_div_pow]
    omega
  have hMul : (a.toNat * 256 + b.toNat) * 4 * 64 = a.toNat * 65536 + b.toNat * 256 := by omega
  rw [quantum?, if_neg fun h => groupDigit_ne_filling _ _ h.1, if_pos rfl,
    (number?_groupDigits hGroup).2.1, hShift, Option.bind_eq_bind, Option.bind_some,
    if_pos (Nat.mul_mod_left _ _), hMul, groupBytes_eq_take (by decide), hBytes]
  rfl

theorem quantum?_three (a b c : UInt8) :
    quantum? (groupDigit (a.toNat * 65536 + b.toNat * 256 + c.toNat) 3)
      (groupDigit (a.toNat * 65536 + b.toNat * 256 + c.toNat) 2)
      (groupDigit (a.toNat * 65536 + b.toNat * 256 + c.toNat) 1)
      (groupDigit (a.toNat * 65536 + b.toNat * 256 + c.toNat) 0) = some [a, b, c] := by
  rw [quantum?, if_neg fun h => groupDigit_ne_filling _ _ h.1,
    if_neg (groupDigit_ne_filling _ _), (number?_groupDigits (group_lt a b c)).2.2]
  exact congrArg some (groupBytes_eq a b c)

/-! ### Texts -/

theorem encodeOnto_eq : ∀ (bytes : List UInt8) (written : List Char),
    encodeOnto written bytes = encodeOnto [] bytes ++ written
  | [], _ | [_], _ | [_, _], _ => rfl
  | a :: b :: c :: bytes, written => by
    have hStep (w : List Char) : encodeOnto w (a :: b :: c :: bytes) = encodeOnto _ bytes := rfl
    rw [hStep, hStep, encodeOnto_eq bytes, encodeOnto_eq bytes (_ :: _), List.append_assoc]
    rfl

theorem encode_cons (a b c : UInt8) (bytes : List UInt8) :
    encode (a :: b :: c :: bytes) =
      groupDigit (a.toNat * 65536 + b.toNat * 256 + c.toNat) 3 ::
        groupDigit (a.toNat * 65536 + b.toNat * 256 + c.toNat) 2 ::
        groupDigit (a.toNat * 65536 + b.toNat * 256 + c.toNat) 1 ::
        groupDigit (a.toNat * 65536 + b.toNat * 256 + c.toNat) 0 :: encode bytes := by
  have hStep : encodeOnto [] (a :: b :: c :: bytes) = encodeOnto _ bytes := rfl
  rw [encode, hStep, encodeOnto_eq, List.reverse_append, encode]
  rfl

/-- **What is written in base 64 is read back.** -/
theorem decode?_encode : ∀ bytes : List UInt8, decode? (encode bytes) = some bytes
  | [] => rfl
  | [a] => by
    show decode? [_, _, '=', '='] = _
    rw [decode?, quantum?_one]
    rfl
  | [a, b] => by
    show decode? [_, _, _, '='] = _
    rw [decode?, quantum?_two]
    rfl
  | a :: b :: c :: bytes => by
    rw [encode_cons, decode?, quantum?_three, Option.bind_eq_bind, Option.bind_some,
      if_neg fun h => groupDigit_ne_filling _ _ h.1, decode?_encode bytes]
    rfl

end Diorama.Base64
