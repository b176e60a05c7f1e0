namespace PosixRegex

inductive Repetition
  | once
  | star
  | plus
  | optional
  | between (min max : Nat)
  | atLeast (min : Nat)
  deriving DecidableEq, Repr

namespace Repetition

def maxBound : Nat := 255

def min : Repetition → Nat
  | once | plus => 1
  | star | optional => 0
  | between m _ | atLeast m => m

def max? : Repetition → Option Nat
  | once | optional => some 1
  | star | plus | atLeast _ => none
  | between _ n => some n

def isOnce (r : Repetition) : Bool := r == once

def isInterval : Repetition → Bool
  | between _ _ | atLeast _ => true
  | _ => false

def belowMax (r : Repetition) (count : Nat) : Bool :=
  match r.max? with
  | none => true
  | some n => count < n

/-- When quantifiers are stacked the one of highest rank survives. -/
def rank : Repetition → Nat
  | once => 0
  | between _ _ | atLeast _ => 1
  | plus => 2
  | optional => 3
  | star => 4

/-- The repetition after `later` has been written behind `r`. Of two quantifiers of equal rank the
first one stays. -/
def stack (r later : Repetition) : Repetition :=
  if r.rank < later.rank then later else r

def suffix : Repetition → String
  | once => ""
  | star => "*"
  | plus => "+"
  | optional => "?"
  | between m n => if m = n then s!"\x7b{m}\x7d" else s!"\x7b{m},{n}\x7d"
  | atLeast m => s!"\x7b{m},\x7d"

end Repetition

end PosixRegex
