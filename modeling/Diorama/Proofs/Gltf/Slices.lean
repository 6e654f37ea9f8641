import Mathlib.Algebra.Group.Nat.Defs
import Diorama.Gltf.Packing
import Diorama.Proofs.List.Blocks
import Diorama.Proofs.Number.Bits

/-!
# Bytes read back

A run of numbers that is written with the lowest byte first is read as these numbers, whatever follows
it (`numbers?_flatMap`), and points are found again from the bits of their coordinates
(`points?_flatMap`).
-/

namespace Diorama.Gltf

/-! ### Numbers -/

/-- The number that bytes stand for, the lowest one first. -/
def numberOfBytes : List UInt8 → Nat
  | [] => 0
  | byte :: bytes => byte.toNat + 256 * numberOfBytes bytes

/-- Reads `count` numbers of `width` bytes each. -/
def numbers? (width : Nat) : Nat → List UInt8 → Option (List Nat)
  | 0, _ => some []
  | count + 1, bytes =>
    if bytes.length < width then none
    else (numbers? width count (bytes.drop width)).map (numberOfBytes (bytes.take width) :: ·)

theorem length_littleEndian (width n : Nat) : (littleEndian width n).length = width := by
  rw [littleEndian, List.length_map, List.length_range]

theorem littleEndian_succ (width n : Nat) :
    littleEndian (width + 1) n = .ofNat n :: littleEndian width (n / 256) := by
  rw [littleEndian, List.range_succ_eq_map, List.map_cons, List.map_map, littleEndian]
  congr 1
  refine List.map_congr_left fun place _ => ?_
  show UInt8.ofNat (n >>> (8 * (place + 1))) = UInt8.ofNat ((n / 256) >>> (8 * place))
  rw [Nat.mul_add, Nat.add_comm, Nat.shiftRight_add, Nat.shiftRight_eq_div_pow n]

theorem numberOfBytes_littleEndian {width n : Nat} (h : n < 256 ^ width) :
    numberOfBytes (littleEndian width n) = n := by
  induction width generalizing n with
  | zero =>
    obtain rfl : n = 0 := by simpa using h
    rfl
  | succ width ih =>
    have hRest : n / 256 < 256 ^ width := Nat.div_lt_of_lt_mul (by rwa [Nat.pow_succ'] at h)
    rw [littleEndian_succ, numberOfBytes, ih hRest, UInt8.toNat_ofNat']
    exact Nat.mod_add_div n 256

/-- **Numbers are read as they were written.** -/
theorem numbers?_flatMap {width : Nat} {numbers : List Nat} (h : ∀ n ∈ numbers, n < 256 ^ width)
    (rest : List UInt8) :
    numbers? width numbers.length (numbers.flatMap (littleEndian width) ++ rest) =
      some numbers := by
  induction numbers with
  | nil => rfl
  | cons n numbers ih =>
    have hLength := length_littleEndian width n
    have hn := h n List.mem_cons_self
    have hRest := ih fun m hm => h m (List.mem_cons_of_mem n hm)
    rw [List.flatMap_cons, List.append_assoc, List.length_cons, numbers?, if_neg,
      List.drop_left' hLength, List.take_left' hLength, hRest, numberOfBytes_littleEndian hn]
    · rfl
    · rw [List.length_append]
      omega

/-! ### Points -/

/-- Three values each make up a point. -/
def triples {α : Type} : List α → List (Vec3 α)
  | x :: y :: z :: rest => ⟨x, y, z⟩ :: triples rest
  | _ => []

theorem triples_flatMap {α : Type} (points : List (Vec3 α)) :
    triples (points.flatMap Vec3.toList) = points := by
  induction points with
  | nil => rfl
  | cons p points ih =>
    rw [List.flatMap_cons]
    show p :: triples (points.flatMap Vec3.toList) = _
    rw [ih]

/-- Reads `count` points. -/
def points? (count : Nat) (bytes : List UInt8) : Option (List PackedPoint) :=
  (numbers? 4 (3 * count) bytes).map fun patterns => triples (patterns.map Binary.ofBits)

/-- The bit patterns of the coordinates of points. -/
def patterns (points : List PackedPoint) : List Nat :=
  (points.flatMap Vec3.toList).map Binary.toBits

theorem length_patterns (points : List PackedPoint) : (patterns points).length = 3 * points.length := by
  rw [patterns, List.length_map]
  exact length_flatMap_of_length (f := Vec3.toList) (fun _ => rfl) points

theorem flatMap_pointBytes (points : List PackedPoint) :
    points.flatMap pointBytes = (patterns points).flatMap (littleEndian 4) := by
  rw [patterns, List.flatMap_map, List.flatMap_assoc]
  rfl

/-- **Points are read as they were written**, bit by bit. -/
theorem points?_flatMap (points : List PackedPoint) (rest : List UInt8) :
    points? points.length (points.flatMap pointBytes ++ rest) = some points := by
  have hPatterns : ∀ n ∈ patterns points, n < 256 ^ 4 := by
    intro n hn
    obtain ⟨x, -, rfl⟩ := List.mem_map.mp hn
    exact x.toBits_lt
  have hBack (x : Single) : Binary.ofBits x.toBits = x := Binary.ofBits_toBits (by decide) x
  rw [points?, flatMap_pointBytes, ← length_patterns, numbers?_flatMap hPatterns, Option.map_some,
    patterns, List.map_map]
  congr 1
  rw [show (Binary.ofBits ∘ Binary.toBits : Single → Single) = id from funext hBack, List.map_id,
    triples_flatMap]

end Diorama.Gltf
