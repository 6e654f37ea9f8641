import Diorama.Number.Binary

/-! # Points and boxes -/

namespace Diorama

/-- One value for each axis of the scene. -/
structure Vec3 (α : Type) where
  x : α
  y : α
  z : α
deriving DecidableEq, Repr

namespace Vec3

variable {α β γ : Type}

def map (f : α → β) (v : Vec3 α) : Vec3 β := ⟨f v.x, f v.y, f v.z⟩

def zipWith (f : α → β → γ) (v : Vec3 α) (w : Vec3 β) : Vec3 γ :=
  ⟨f v.x w.x, f v.y w.y, f v.z w.z⟩

def replicate (a : α) : Vec3 α := ⟨a, a, a⟩

def toList (v : Vec3 α) : List α := [v.x, v.y, v.z]

end Vec3

/-- A place in the scene. -/
abbrev Point := Vec3 Double

/-- A place as it is packed into buffers. -/
abbrev PackedPoint := Vec3 Single

namespace Point

def offset (p : Point) (shift : Vec3 Double) : Point := p.zipWith (· + ·) shift

def scale (p : Point) (factor : Double) : Point := p.map (· * factor)

def pack (p : Point) : PackedPoint := p.map Binary.convert

end Point

/-- An axis-parallel box. -/
structure Bounds where
  least : PackedPoint
  greatest : PackedPoint
deriving DecidableEq, Repr

namespace Bounds

/-- The box of no points; its bounds are the wrong way round. -/
def empty : Bounds := ⟨.replicate (.infinite false), .replicate (.infinite true)⟩

/-- The least box around a box and a point. Coordinates that are no numbers are passed over. -/
def extend (b : Bounds) (p : PackedPoint) : Bounds :=
  ⟨b.least.zipWith Binary.least p, b.greatest.zipWith Binary.greatest p⟩

def ofPoints (points : List PackedPoint) : Bounds := points.foldl extend empty

def isEmpty (b : Bounds) : Bool := b.greatest.x.less b.least.x

end Bounds

end Diorama
