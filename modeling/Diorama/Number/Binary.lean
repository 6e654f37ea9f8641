/-! # Binary floating point

The finite numbers of a format without their sign are numbered in increasing order, zero first.
That number is the *magnitude*, and it is also the bit pattern without the sign bit. A magnitude
stands for a whole number of *units*, the unit being the least positive number of the format, so
that sums and products are exact on natural numbers and are rounded once, by `Format.nearest`.
-/

namespace Diorama

/-- Where a quotient goes that lies halfway between two whole numbers. -/
inductive Tie where
  | toEven
  | up
deriving DecidableEq, Repr

/-- Whether a quotient with whole part `whole` and rest `rest / den` is rounded away from `whole`. -/
def Tie.roundsUp (tie : Tie) (whole rest den : Nat) : Bool :=
  if 2 * rest = den then
    match tie with
    | .toEven => whole % 2 = 1
    | .up => true
  else den < 2 * rest

/-- The whole number nearest to `num / den`. -/
def divNearest (tie : Tie) (num den : Nat) : Nat :=
  if tie.roundsUp (num / den) (num % den) den then num / den + 1 else num / den

/-- A binary format: the width of the fraction field, the unit `2 ^ -point`, and the number of
finite magnitudes, which is also the magnitude of infinity. -/
structure Format where
  fractionBits : Nat
  point : Nat
  top : Nat
deriving DecidableEq, Repr

namespace Format

/-- Numbers of 64 bits. -/
def double : Format := ⟨52, 1074, 0x7FF0000000000000⟩

/-- Numbers of 32 bits. -/
def single : Format := ⟨23, 149, 0x7F800000⟩

/-- The number of magnitudes from one power of two to the next. -/
def binade (F : Format) : Nat := Nat.pow 2 F.fractionBits

/-- The number one, in units. -/
def one (F : Format) : Nat := Nat.pow 2 F.point

/-- The weight of the sign in a bit pattern. The last binade holds the infinity. -/
def signBit (F : Format) : Nat := F.top + F.binade

/-- The value of a magnitude, in units. Below one binade it is the magnitude itself. -/
def units (F : Format) (magnitude : Nat) : Nat :=
  if magnitude < F.binade then magnitude
  else (F.binade + magnitude % F.binade) * Nat.pow 2 (magnitude / F.binade - 1)

/-- The magnitude nearest to `num / den` units, ties to even. A magnitude from `top` on means that
the quotient is too large for the format. -/
def nearest (F : Format) (num den : Nat) : Nat :=
  let spare := (num / den).log2 - F.fractionBits
  spare * F.binade + divNearest .toEven num (den * Nat.pow 2 spare)

end Format

/-- A number of the format `F`. All results that are not numbers are one value. -/
inductive Binary (F : Format) where
  | finite (negative : Bool) (magnitude : Nat) (bounded : magnitude < F.top)
  | infinite (negative : Bool)
  | nan
deriving DecidableEq, Repr

abbrev Double := Binary .double

abbrev Single := Binary .single

namespace Binary

variable {F G : Format}

/-- The number with a given magnitude, infinite from `top` on. -/
def ofMagnitude (negative : Bool) (magnitude : Nat) : Binary F :=
  if h : magnitude < F.top then .finite negative magnitude h else .infinite negative

/-- The number nearest to `num / den` units. -/
def ofUnits (negative : Bool) (num den : Nat) : Binary F :=
  ofMagnitude negative (F.nearest num den)

def zero : Binary F := ofMagnitude false 0

def ofNat (n : Nat) : Binary F := ofUnits false (n * F.one) 1

def ofInt (n : Int) : Binary F := ofUnits (n < 0) (n.natAbs * F.one) 1

def isFinite : Binary F → Bool
  | .finite .. => true
  | _ => false

def isNegative : Binary F → Bool
  | .finite negative .. => negative
  | .infinite negative => negative
  | .nan => false

/-- A zero of either sign. -/
def isZero : Binary F → Bool
  | .finite _ magnitude _ => magnitude = 0
  | _ => false

def neg : Binary F → Binary F
  | .finite negative magnitude bounded => .finite (!negative) magnitude bounded
  | .infinite negative => .infinite (!negative)
  | .nan => .nan

/-- The exact value in units. -/
def signedUnits (F : Format) (negative : Bool) (magnitude : Nat) : Int :=
  if negative then -(F.units magnitude : Int) else F.units magnitude

/-- An exact zero is positive unless both operands are negative. -/
def add : Binary F → Binary F → Binary F
  | .finite m j _, .finite n k _ =>
    let sum := signedUnits F m j + signedUnits F n k
    if sum = 0 then ofMagnitude (m && n) 0 else ofUnits (sum < 0) sum.natAbs 1
  | .infinite m, .infinite n => if m = n then .infinite m else .nan
  | .infinite m, .finite .. => .infinite m
  | .finite .., .infinite n => .infinite n
  | .nan, _ => .nan
  | _, .nan => .nan

def mul : Binary F → Binary F → Binary F
  | .finite m j _, .finite n k _ => ofUnits (m != n) (F.units j * F.units k) F.one
  | .infinite m, .infinite n => .infinite (m != n)
  | .infinite m, .finite n k _ => if k = 0 then .nan else .infinite (m != n)
  | .finite m j _, .infinite n => if j = 0 then .nan else .infinite (m != n)
  | .nan, _ => .nan
  | _, .nan => .nan

instance : Neg (Binary F) := ⟨neg⟩
instance : Add (Binary F) := ⟨add⟩
instance : Mul (Binary F) := ⟨mul⟩
instance (n : Nat) : OfNat (Binary F) n := ⟨ofNat n⟩

/-- The nearest number of another format. -/
def convert : Binary F → Binary G
  | .finite negative magnitude _ =>
    ofUnits negative (F.units magnitude * G.one) F.one
  | .infinite negative => .infinite negative
  | .nan => .nan

/-- Puts the positive zero in the place of either zero. -/
def positiveZero (x : Binary F) : Binary F := if x.isZero then zero else x

/-- The place of a number in the order; both zeros share theirs. -/
def rank? : Binary F → Option Int
  | .finite negative magnitude _ => some (if negative then -(magnitude : Int) else magnitude)
  | .infinite negative => some (if negative then -(F.top : Int) else F.top)
  | .nan => none

/-- The numerical order, in which `nan` has no place. -/
def less (x y : Binary F) : Bool :=
  match x.rank?, y.rank? with
  | some i, some j => i < j
  | _, _ => false

/-- The smaller operand, or the other one if one is `nan`. -/
def least (x y : Binary F) : Binary F :=
  match x, y with
  | .nan, y => y
  | x, .nan => x
  | x, y => if y.less x then y else x

/-- The greater operand, or the other one if one is `nan`. -/
def greatest (x y : Binary F) : Binary F :=
  match x, y with
  | .nan, y => y
  | x, .nan => x
  | x, y => if x.less y then y else x

/-- The bit pattern; `nan` has the positive quiet one. -/
def toBits : Binary F → Nat
  | .finite negative magnitude _ => (if negative then F.signBit else 0) + magnitude
  | .infinite negative => (if negative then F.signBit else 0) + F.top
  | .nan => F.top + F.binade / 2

end Binary

end Diorama
