import PosixRegex.Pattern
import PosixRegex.Pattern.BracketSet

/-!
The instructions of a pattern. Literal characters that follow each other share an instruction, and
a scope with several alternatives becomes a chain: every alternative has a head that knows the
distance to the next one, every alternative but the last ends by joining the end of the group, and
a mark with distance zero stands behind the last one.
-/

namespace PosixRegex

structure Target where
  options : Options
  locale : Locale
  /-- The longest run of literal characters in one instruction. -/
  run : Nat

namespace Target

def pair (t : Target) (c : Char) : Char × Char := (c, (t.locale.opposite? c).getD c)

def literal (t : Target) (cs : List Char) : Consumer :=
  if t.options.ignoreCase then
    match cs with
    | [c] => .literalFold (t.pair c).1 (t.pair c).2
    | _ => .textFold (cs.map t.pair)
  else
    match cs with
    | [c] => .literal c
    | _ => .text cs

def consumer (t : Target) : Leaf → Consumer
  | .char c => t.literal [c]
  | .any => if t.options.newlineSensitive then .anyButNewline else .any
  | .bracket b => b.consumer t.options t.locale
  | .backRef g => if t.options.ignoreCase then .backRefFold g else .backRef g

def flush (t : Target) (pending : List Char) : List Inst :=
  if pending.isEmpty then [] else [.ofAtom (.consume (t.literal pending.reverse))]

end Target

/-- Write `code` in front of the first alternative. -/
def prepend (code : List Inst) : List (List Inst) → List (List Inst)
  | [] => [code]
  | first :: others => (code ++ first) :: others

/-- Connect the alternatives of group `g`. -/
def chain (g : Nat) : List (List Inst) → List Inst
  | [] => []
  | [last] => .ofAtom (.branch (last.length + 1)) :: last ++ [.ofAtom (.branch 0)]
  | first :: others =>
    .ofAtom (.branch (first.length + 2)) :: first ++ .ofAtom (.join g) :: chain g others

/-- A single alternative needs no marks. -/
def link (g : Nat) : List (List Inst) → List Inst
  | [only] => only
  | branches => chain g branches

namespace Pattern

/-- The instructions of each alternative. `next` is the number of the next group, and `pending`
holds the literal characters that have been read but not written, last one first. -/
def branches (t : Target) : (next : Nat) → (pending : List Char) → Pattern → List (List Inst)
  | _, pending, done => [t.flush pending]
  | next, pending, leaf (.char c) .once rest =>
    if pending.length < t.run then branches t next (c :: pending) rest
    else prepend (t.flush pending) (branches t next [c] rest)
  | next, pending, leaf what times rest =>
    prepend (t.flush pending ++ [⟨.consume (t.consumer what), times⟩]) (branches t next [] rest)
  | next, pending, assert what rest =>
    prepend (t.flush pending ++ [.ofAtom (.assert what)]) (branches t next [] rest)
  | next, pending, group body times rest =>
    let inner := link next (branches t (next + 1) [] body)
    prepend (t.flush pending ++ ⟨.enter next, times⟩ :: inner ++ [⟨.leave next, times⟩])
      (branches t (next + 1 + body.groupCount) [] rest)
  | next, pending, bar rest => t.flush pending :: branches t next [] rest

def code (t : Target) (p : Pattern) : List Inst :=
  link 0 (p.branches t 1 []) ++ [.ofAtom .accept]

end Pattern

end PosixRegex
