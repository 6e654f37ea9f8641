/-! # Spans

Half-open ranges of byte positions in a text.
-/

namespace Diorama

structure Span where
  start : Nat
  stop : Nat
  start_le_stop : start ≤ stop
deriving DecidableEq, Repr

namespace Span

/-- The range from `start` to `stop`, empty if `stop` comes first. -/
def ofBounds (start stop : Nat) : Span := ⟨start, max start stop, Nat.le_max_left _ _⟩

def ofLength (start length : Nat) : Span := ⟨start, start + length, Nat.le_add_right _ _⟩

def length (s : Span) : Nat := s.stop - s.start

def isEmpty (s : Span) : Bool := s.start = s.stop

/-- The least range that holds both. -/
def union (s t : Span) : Span :=
  ⟨min s.start t.start, max s.stop t.stop, by
    have := s.start_le_stop
    have := t.start_le_stop
    omega⟩

def text (s : Span) : String := toString s.start ++ ".." ++ toString s.stop

end Span

end Diorama
