import PosixRegex.ByteSet
import PosixRegex.Repetition
import PosixRegex.WeightSet

/-!
The instructions of a compiled pattern. An instruction is an atom with a repetition. Atoms that
consume characters may be repeated by themselves; a repeated group carries its repetition on both
of its markers.
-/

namespace PosixRegex

inductive WordEdge
  | start
  | finish
  | either
  | neither
  deriving DecidableEq, Repr

inductive Assertion
  | lineStart
  | lineEnd
  | word (edge : WordEdge)
  deriving DecidableEq, Repr

inductive Consumer
  | literal (c : Char)
  | literalFold (c other : Char)
  | text (cs : List Char)
  | textFold (pairs : List (Char × Char))
  | any
  | anyButNewline
  | narrow (s : NarrowSet)
  | weighted (s : WeightSet)
  | backRef (group : Nat)
  | backRefFold (group : Nat)
  deriving DecidableEq

inductive Atom
  | consume (what : Consumer)
  | assert (what : Assertion)
  | enter (group : Nat)
  | leave (group : Nat)
  /-- The head of an alternative, with the distance to the head of the following one. A distance
  of zero marks the end of the chain. -/
  | branch (next : Nat)
  /-- The end of an alternative other than the last one; it leads to the end of the group. -/
  | join (group : Nat)
  | accept
  deriving DecidableEq

structure Inst where
  atom : Atom
  times : Repetition
  deriving DecidableEq

namespace Consumer

def isSingle : Consumer → Bool
  | literal _ | literalFold _ _ | any | anyButNewline | narrow _ | weighted _ => true
  | text _ | textFold _ | backRef _ | backRefFold _ => false

def literalLength? : Consumer → Option Nat
  | literal _ | literalFold _ _ => some 1
  | text cs => some cs.length
  | textFold pairs => some pairs.length
  | _ => none

def admits (l : Locale) : Consumer → Char → Bool
  | narrow s, c => s.contains c
  | weighted s, c => s.contains l c
  | _, _ => false

end Consumer

namespace Atom

def isAssertion : Atom → Bool
  | assert _ => true
  | _ => false

def isSingle : Atom → Bool
  | consume what => what.isSingle
  | _ => false

def literalLength? : Atom → Option Nat
  | consume what => what.literalLength?
  | _ => none

def admits (l : Locale) : Atom → Char → Bool
  | consume what => what.admits l
  | _ => fun _ => false

def isChainEnd (a : Atom) : Bool := a == branch 0

end Atom

namespace Inst

def ofAtom (a : Atom) : Inst := ⟨a, .once⟩

def isBranch (i : Inst) : Bool :=
  match i.atom with
  | .branch _ => true
  | _ => false

end Inst

end PosixRegex
