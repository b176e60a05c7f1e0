import PosixRegex.Pattern.Cursor
import PosixRegex.Pattern.Options
import PosixRegex.Repetition

namespace PosixRegex

/-- The numbers written in an interval; without `max` there is no upper bound. -/
structure Bounds where
  min : Nat
  max : Option Nat
  deriving DecidableEq, Repr

namespace Bounds

def close : Dialect → List Char
  | .basic => ['\\', '\x7d']
  | .extended => ['\x7d']

/-- Read `m`, `m,` or `m,n` and the closing brace. Any other text is no interval. -/
def read? (d : Dialect) (c : Cursor) : Option (Bounds × Cursor) := do
  let (m, c) ← c.number?
  match c.eat? [','] with
  | none => (c.eat? (close d)).map (fun c => (⟨m, some m⟩, c))
  | some c =>
    match c.number? with
    | none => (c.eat? (close d)).map (fun c => (⟨m, none⟩, c))
    | some (n, c) => (c.eat? (close d)).map (fun c => (⟨m, some n⟩, c))

def repetition? (b : Bounds) : Option Repetition :=
  match b.max with
  | none => if b.min ≤ Repetition.maxBound then some (.atLeast b.min) else none
  | some n => if b.min ≤ n ∧ n ≤ Repetition.maxBound then some (.between b.min n) else none

end Bounds

end PosixRegex
