import PosixRegex.Instruction
import PosixRegex.Pattern.Bracket

/-!
Patterns as trees. Each constructor but the first holds what follows it in the same group, and a
bar separates two alternatives.
-/

namespace PosixRegex

inductive Leaf
  | char (c : Char)
  | any
  | bracket (b : Bracket)
  | backRef (group : Nat)
  deriving DecidableEq, Repr

inductive Pattern
  | done
  | leaf (what : Leaf) (times : Repetition) (rest : Pattern)
  | assert (what : Assertion) (rest : Pattern)
  | group (body : Pattern) (times : Repetition) (rest : Pattern)
  | bar (rest : Pattern)
  deriving DecidableEq, Repr

namespace Pattern

def reverseOnto : Pattern → Pattern → Pattern
  | done, k => k
  | leaf what times rest, k => reverseOnto rest (leaf what times k)
  | assert what rest, k => reverseOnto rest (assert what k)
  | group body times rest, k => reverseOnto rest (group body times k)
  | bar rest, k => reverseOnto rest (bar k)

def reverse (p : Pattern) : Pattern := reverseOnto p done

def groupCount : Pattern → Nat
  | done => 0
  | leaf _ _ rest | assert _ rest | bar rest => groupCount rest
  | group body _ rest => groupCount body + 1 + groupCount rest

theorem groupCount_reverseOnto (p k : Pattern) :
    (p.reverseOnto k).groupCount = p.groupCount + k.groupCount := by
  induction p generalizing k with
  | done => simp [reverseOnto, groupCount]
  | leaf what times rest ih | assert what rest ih | bar rest ih =>
    rw [reverseOnto, ih]
    rfl
  | group body times rest _ ih =>
    rw [reverseOnto, ih]
    simp only [groupCount]
    omega

@[simp] theorem groupCount_reverse (p : Pattern) : p.reverse.groupCount = p.groupCount :=
  groupCount_reverseOnto p done

theorem reverse_reverseOnto (p k : Pattern) : (p.reverseOnto k).reverse = k.reverseOnto p := by
  induction p generalizing k with
  | done => rfl
  | leaf what times rest ih | assert what rest ih | bar rest ih | group body times rest _ ih =>
    rw [reverseOnto, ih]
    rfl

@[simp] theorem reverse_reverse (p : Pattern) : p.reverse.reverse = p :=
  reverse_reverseOnto p done

end Pattern

end PosixRegex
