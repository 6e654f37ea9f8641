import Diorama.Number.Style
import Diorama.Number.Decimal

/-! # Settings -/

namespace Diorama

/-- Distances of the grid on which nodes are placed, and the depths of the bands. -/
structure Spacing where
  column : Double
  row : Double
  workloadDepth : Double
  serviceDepth : Double
deriving DecidableEq, Repr

def Spacing.standard : Spacing :=
  ⟨4, 3, .ofDecimal false ⟨12, -1⟩, .ofDecimal true ⟨12, -1⟩⟩

/-- The edge of a node's cube. -/
def standardCubeSize : Double := .ofDecimal false ⟨16, -1⟩

structure Settings where
  spacing : Spacing
  cubeSize : Double
  strict : Bool
deriving DecidableEq, Repr

namespace Settings

def standard : Settings := ⟨.standard, standardCubeSize, false⟩

/-- What makes settings unusable. -/
inductive Fault where
  | notFinite (key : String) (value : Double)
  | notPositive (key : String) (value : Double)
deriving DecidableEq, Repr

def Fault.message : Fault → String
  | .notFinite key value =>
    "`" ++ key ++ "` must be a finite number, got " ++ String.ofList (NumberStyle.plain.text value)
  | .notPositive key value =>
    "`" ++ key ++ "` must be positive, got " ++ String.ofList (NumberStyle.plain.text value)

/-- The numbers among the settings, in the order in which they are checked. -/
def numbers (s : Settings) : List (String × Double) :=
  [("layout.column_spacing", s.spacing.column), ("layout.row_spacing", s.spacing.row),
    ("layout.workload_depth", s.spacing.workloadDepth),
    ("layout.service_depth", s.spacing.serviceDepth), ("export.cube_size", s.cubeSize)]

/-- All numbers have to be finite and cubes have to have an extent. -/
def validate (s : Settings) : Except Fault Unit :=
  match s.numbers.find? fun (_, value) => !value.isFinite with
  | some (key, value) => .error (.notFinite key value)
  | none =>
    if Binary.less 0 s.cubeSize then .ok () else .error (.notPositive "export.cube_size" s.cubeSize)

end Settings

end Diorama
