import PosixRegex.Locale
import PosixRegex.RangeSet

namespace PosixRegex

structure WeightSet where
  members : RangeSet
  classes : List CharClass
  negated : Bool
  /-- A newline is no member of the negated set. -/
  excludesNewline : Bool
  deriving DecidableEq

namespace WeightSet

def empty : WeightSet := ⟨.empty, [], false, false⟩

def insertRange (s : WeightSet) (lo hi : Nat) : WeightSet :=
  { s with members := s.members.insertRange lo hi }

def insert (s : WeightSet) (w : Nat) : WeightSet := s.insertRange w w

/-- Add a class; a class that is there already is not added again. -/
def addClass (s : WeightSet) (k : CharClass) : WeightSet :=
  if s.classes.contains k then s else { s with classes := s.classes ++ [k] }

def negate (s : WeightSet) (excludeNewline : Bool) : WeightSet :=
  { s with negated := true, excludesNewline := excludeNewline }

def containsWeight (s : WeightSet) (w : Nat) : Bool := s.members.contains w

def lists (s : WeightSet) (l : Locale) (c : Char) : Bool :=
  s.containsWeight (Locale.uniqueWeight c) || s.classes.any (l.isClass · c)

def contains (s : WeightSet) (l : Locale) (c : Char) : Bool :=
  if s.negated then !s.lists l c && !(c == '\n' && s.excludesNewline) else s.lists l c

end WeightSet

end PosixRegex
