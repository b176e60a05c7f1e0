namespace PosixRegex

/-- The bytes from `start` up to `stop`, which is not included. -/
structure Span where
  start : Nat
  stop : Nat
  deriving DecidableEq, Repr

namespace Span

def length (s : Span) : Nat := s.stop - s.start

def isEmpty (s : Span) : Bool := s.start == s.stop

end Span

structure Slot where
  count : Nat := 0
  start : Option Nat := none
  stop : Option Nat := none
  deriving DecidableEq, Repr

/-- The text that the group holds. A group that has been entered again may start behind its last
end and holds nothing then. -/
def Slot.span? (s : Slot) : Option Span :=
  match s.start, s.stop with
  | some a, some b => if a ≤ b then some ⟨a, b⟩ else none
  | _, _ => none

abbrev Slots := Array Slot

/-- The span of the whole match, followed by those of the groups that are reported. -/
structure Captures where
  spans : List (Option Span)
  deriving DecidableEq, Repr

namespace Captures

/-- At most `limit` spans, but at least the one of the whole match. -/
def ofSlots (slots : Slots) (limit : Nat) : Captures :=
  ⟨(slots.toList.take (max limit 1)).map Slot.span?⟩

def get? (c : Captures) (group : Nat) : Option Span := (c.spans[group]?).join

def whole (c : Captures) : Span := (c.get? 0).getD ⟨0, 0⟩

end Captures

end PosixRegex
