import PosixRegex.Instruction

namespace PosixRegex

/-- Where the two markers of a group stand. Group zero is the whole program, from its first
instruction to its last. -/
structure GroupSpan where
  start : Nat
  stop : Nat
  deriving DecidableEq, Repr

structure ProgramFlags where
  ignoreCase : Bool
  newlineSensitive : Bool
  /-- Report the span of the whole match only. -/
  noCapture : Bool
  /-- The program starts with `^`, so that only the first position can match. -/
  anchored : Bool
  deriving DecidableEq, Repr

structure Program where
  insts : Array Inst
  groups : Array GroupSpan
  /-- No match that starts with another byte exists, and an empty match at the end of the subject
  exists only if all bytes are members. -/
  firstBytes : ByteSet
  flags : ProgramFlags
  deriving DecidableEq

namespace Program

def groupCount (p : Program) : Nat := p.groups.size - 1

end Program

end PosixRegex
