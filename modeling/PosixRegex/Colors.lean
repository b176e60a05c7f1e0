namespace PosixRegex

inductive Ink
  | blue
  | green
  | dim
  | plain

structure Colors where
  enabled : Bool

namespace Colors

def escape : Ink → String
  | .blue => "\x1b[34m"
  | .green => "\x1b[32m"
  | .dim => "\x1b[2m"
  | .plain => "\x1b[0m"

def code (colors : Colors) (ink : Ink) : String :=
  if colors.enabled then escape ink else ""

def paint (colors : Colors) (ink : Ink) (text : String) : String :=
  colors.code ink ++ text ++ colors.code .plain

end Colors

end PosixRegex
