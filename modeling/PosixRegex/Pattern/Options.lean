namespace PosixRegex

inductive Dialect
  | basic
  | extended
  deriving DecidableEq, Repr

structure Options where
  dialect : Dialect := .basic
  ignoreCase : Bool := false
  /-- A dot and a negated bracket skip newlines, and `^` and `$` also match around them. -/
  newlineSensitive : Bool := false
  noCapture : Bool := false
  deriving DecidableEq, Repr

structure CompileLimits where
  instructions : Nat := 65535
  /-- The longest run of literal characters in one instruction. -/
  run : Nat := 255
  deriving DecidableEq, Repr

end PosixRegex
