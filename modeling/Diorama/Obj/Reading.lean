import Diorama.Geometry.Mesh
import Diorama.Number.Decimal
import Diorama.Text.Blank

/-! # Reading OBJ meshes

Only vertex and face lines count; any other line is passed over. Faces may name vertices that come
later, so their indices are checked at the end.
-/

namespace Diorama.Obj

inductive Axis where
  | x
  | y
  | z
deriving DecidableEq, Repr

def Axis.name : Axis → String
  | .x => "x"
  | .y => "y"
  | .z => "z"

/-- What can be wrong with a line. -/
inductive Fault where
  | missingCoordinate (axis : Axis)
  | invalidCoordinate (axis : Axis) (token : String)
  | unboundedCoordinate (axis : Axis) (token : String)
  | invalidIndex (token : String)
  | zeroIndex
  | indexBeforeFirst (index : Int)
  | indexTooLarge (index : Int)
  | indexOutOfRange (index vertices : Nat)
deriving DecidableEq, Repr

def Fault.message : Fault → String
  | .missingCoordinate axis => "missing " ++ axis.name ++ " coordinate"
  | .invalidCoordinate axis token => "invalid " ++ axis.name ++ " coordinate `" ++ token ++ "`"
  | .unboundedCoordinate axis token =>
    axis.name ++ " coordinate `" ++ token ++ "` is not a finite 32-bit float"
  | .invalidIndex token => "invalid face index `" ++ token ++ "`"
  | .zeroIndex => "face index 0 is not allowed"
  | .indexBeforeFirst index =>
    "relative index " ++ toString index ++ " reaches before the first vertex"
  | .indexTooLarge index => "face index " ++ toString index ++ " is too large"
  | .indexOutOfRange index vertices =>
    "face index " ++ toString index ++ " out of range for " ++ toString vertices ++ " vertices"

/-- A fault and the number of its line, counted from one. -/
structure LineFault where
  line : Nat
  fault : Fault
deriving DecidableEq, Repr

/-- A coordinate has to stay finite when it is packed. -/
def coordinate (axis : Axis) : Option (List Char) → Except Fault Double
  | none => .error (.missingCoordinate axis)
  | some token =>
    match (Binary.ofText? token : Option Double) with
    | none => .error (.invalidCoordinate axis (String.ofList token))
    | some value =>
      if (value.convert : Single).isFinite then .ok value
      else .error (.unboundedCoordinate axis (String.ofList token))

/-- The first three tokens; what follows them is passed over. -/
def vertex (tokens : List (List Char)) : Except Fault Point := do
  let x ← coordinate .x tokens[0]?
  let y ← coordinate .y tokens[1]?
  let z ← coordinate .z tokens[2]?
  return ⟨x, y, z⟩

/-- A signed whole number of 64 bits. -/
def int64? (text : List Char) : Option Int :=
  let (negative, digits) := Diorama.splitSign text
  let value : Int := if negative then -(natOfDigits digits : Int) else natOfDigits digits
  if digits ≠ [] ∧ digits.all Char.isDigit ∧ -0x8000000000000000 ≤ value ∧
      value < 0x8000000000000000 then some value
  else none

/-- The index of a vertex, counted from zero. Positive numbers count from the first vertex of the
text, negative ones backwards from the last of the `seen` vertices. What follows a slash is passed
over. -/
def faceIndex (seen : Nat) (token : List Char) : Except Fault UInt32 :=
  let head := token.takeWhile (· ≠ '/')
  match int64? head with
  | none => .error (.invalidIndex (String.ofList head))
  | some value =>
    let index := if value < 0 then seen + value else value - 1
    if value = 0 then .error .zeroIndex
    else if index < 0 then .error (.indexBeforeFirst value)
    else if UInt32.size ≤ index then .error (.indexTooLarge value)
    else .ok (.ofNat index.toNat)

structure Face where
  line : Nat
  indices : List UInt32
deriving DecidableEq, Repr

/-- What has been read so far. -/
structure Progress where
  vertices : Array Point
  faces : Array Face
deriving DecidableEq, Repr

def readLine (progress : Progress) (line : List Char) (number : Nat) :
    Except LineFault Progress :=
  match Text.words line with
  | ['v'] :: tokens =>
    match vertex tokens with
    | .ok point => .ok { progress with vertices := progress.vertices.push point }
    | .error fault => .error ⟨number, fault⟩
  | ['f'] :: tokens =>
    match tokens.mapM (faceIndex progress.vertices.size) with
    | .ok indices => .ok { progress with faces := progress.faces.push ⟨number, indices⟩ }
    | .error fault => .error ⟨number, fault⟩
  | _ => .ok progress

/-- The triangles of a face whose indices all name one of `vertices` vertices. -/
def resolveFace (vertices : Nat) (face : Face) : Except LineFault (List Triangle) :=
  match face.indices.find? (vertices ≤ ·.toNat) with
  | some index => .error ⟨face.line, .indexOutOfRange (index.toNat + 1) vertices⟩
  | none => .ok (triangulate face.indices)

def read (text : String) : Except LineFault Mesh := do
  let progress ← ((text.toList.splitOn '\n').zipIdx 1).foldlM
    (fun progress (line, number) => readLine progress line number) ⟨#[], #[]⟩
  let triangles ← progress.faces.toList.mapM (resolveFace progress.vertices.size)
  return ⟨progress.vertices.toList, triangles.flatten⟩

end Diorama.Obj
