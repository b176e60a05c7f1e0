import PosixRegex.Pattern
import PosixRegex.Pattern.Token

namespace PosixRegex

/-- An open group, or the whole pattern as group zero. -/
structure Scope where
  group : Nat
  opened : Nat
  items : Pattern
  /-- There is more than one alternative. -/
  barred : Bool
  dollar : Bool
  /-- The groups that could be referred to where the scope was opened. -/
  closedBefore : List Nat
  /-- The groups closed by the alternatives that are complete. -/
  closedInBranches : List Nat

structure Reader where
  scope : Scope
  outer : List Scope
  /-- The groups that are closed on every way to this place; only they may be referred to. -/
  closed : List Nat
  groups : Nat
  /-- The number of instructions that the items take. -/
  size : Nat
  /-- The length of the run of literal characters that another one would extend. -/
  run : Nat

/-- What a quantifier would apply to. -/
inductive Operand
  | nothing
  | assertion
  | plain
  /-- An item that has a quantifier already. -/
  | repeated (times : Repetition)

namespace Pattern

/-- The operand at the end of a list of items, last one first. -/
def operand : Pattern → Operand
  | done | bar _ => .nothing
  | assert _ _ => .assertion
  | leaf _ times _ | group _ times _ => if times.isOnce then .plain else .repeated times

def setTimes (times : Repetition) : Pattern → Pattern
  | leaf what _ rest => leaf what times rest
  | group body _ rest => group body times rest
  | p => p

end Pattern

def Scope.empty (group opened : Nat) (closed : List Nat) : Scope :=
  ⟨group, opened, .done, false, false, closed, []⟩

def addNew (ns : List Nat) (n : Nat) : List Nat := if ns.contains n then ns else ns ++ [n]

namespace Reader

def maxGroup : Nat := 65535

def start : Reader := ⟨.empty 0 0 [], [], [], 0, 0, 0⟩

def push (r : Reader) (item : Pattern → Pattern) (size run : Nat) : Reader :=
  { r with scope := { r.scope with items := item r.scope.items }, size := r.size + size, run }

/-- In the extended dialect nothing that consumes text may follow a dollar anchor. -/
def checkDollar (d : Dialect) (r : Reader) : Except PatternFault Unit :=
  if d = .extended ∧ r.scope.dollar then .error .anchorNotLast else .ok ()

/-- A literal character takes no instruction of its own if it extends a run. -/
def char (d : Dialect) (limits : CompileLimits) (c : Char) (r : Reader) :
    Except PatternFault Reader := do
  r.checkDollar d
  if 0 < r.run ∧ r.run < limits.run then
    return r.push (.leaf (.char c) .once) 0 (r.run + 1)
  else
    return r.push (.leaf (.char c) .once) 1 1

def leaf (d : Dialect) (what : Leaf) (r : Reader) : Except PatternFault Reader := do
  r.checkDollar d
  return r.push (.leaf what .once) 1 0

def assert (what : Assertion) (r : Reader) : Reader := r.push (.assert what) 1 0

/-- A quantifier splits the last character off a run. Basic intervals do not stack. -/
def quantify (d : Dialect) (times : Repetition) (r : Reader) : Except PatternFault Reader :=
  match r.scope.items.operand with
  | .nothing | .assertion => .error .badRepetition
  | .plain => .ok (r.push (Pattern.setTimes times) (if 1 < r.run then 1 else 0) 0)
  | .repeated current =>
    if d = .basic ∧ (times.isInterval ∨ current.isInterval) then .error .badRepetition
    else .ok (r.push (Pattern.setTimes (current.stack times)) 0 0)

def star (d : Dialect) (limits : CompileLimits) (r : Reader) : Except PatternFault Reader :=
  match d, r.scope.items.operand with
  | .basic, .nothing | .basic, .assertion => r.char d limits '*'
  | _, _ => r.quantify d .star

def caret (d : Dialect) (limits : CompileLimits) (r : Reader) : Except PatternFault Reader :=
  match d, r.scope.items.operand with
  | .extended, _ | .basic, .nothing => .ok (r.assert .lineStart)
  | .basic, _ => r.char d limits '^'

def dollar (r : Reader) : Reader :=
  let r := r.assert .lineEnd
  { r with scope := { r.scope with dollar := true } }

def backRef (d : Dialect) (group : Nat) (r : Reader) : Except PatternFault Reader :=
  if r.closed.contains group then r.leaf d (.backRef group) else .error .invalidBackReference

def openGroup (d : Dialect) (offset : Nat) (r : Reader) : Except PatternFault Reader := do
  r.checkDollar d
  if maxGroup ≤ r.groups then .error .patternTooLarge
  else
    return { r with
      scope := .empty (r.groups + 1) offset r.closed
      outer := r.scope :: r.outer
      groups := r.groups + 1
      size := r.size + 1
      run := 0 }

/-- The instruction that marks the end of the alternatives of a scope, if there are several. -/
def chainEnd (s : Scope) : Nat := if s.barred then 1 else 0

def closeGroup (r : Reader) : Except PatternFault Reader :=
  match r.outer with
  | [] => .error .unmatchedParen
  | scope :: outer =>
    .ok { r with
      scope := { scope with items := .group r.scope.items.reverse .once scope.items }
      outer
      closed := (r.scope.closedInBranches ++ [r.scope.group]).foldl addNew r.closed
      size := r.size + chainEnd r.scope + 1
      run := 0 }

/-- The first bar of a scope also pays for the head of the alternative before it. -/
def bar (r : Reader) : Reader :=
  { r with
    scope := { r.scope with
      items := .bar r.scope.items
      barred := true
      dollar := false
      closedInBranches := r.closed.foldl addNew r.scope.closedInBranches }
    closed := r.scope.closedBefore
    size := r.size + (if r.scope.barred then 2 else 3)
    run := 0 }

def step (d : Dialect) (limits : CompileLimits) (offset : Nat) (r : Reader) :
    Token → Except PatternFault Reader
  | .char c => r.char d limits c
  | .any => r.leaf d .any
  | .bracket => r.checkDollar d *> .ok r
  | .backRef g => r.backRef d g
  | .word edge => .ok (r.assert (.word edge))
  | .star => r.star d limits
  | .caret => r.caret d limits
  | .dollar => .ok r.dollar
  | .quantifier times => r.quantify d times
  | .openGroup => r.openGroup d offset
  | .closeGroup => r.closeGroup
  | .bar => .ok r.bar

def readToken (d : Dialect) (limits : CompileLimits) (r : Reader) (x : Char) (offset : Nat)
    (c : Cursor) : Except PatternError (Reader × Cursor) := do
  let blame {α : Type} (e : Except PatternFault α) : Except PatternError α :=
    e.mapError (⟨offset, ·⟩)
  let (token, after) ← blame (Token.read d x c)
  let r ← blame (r.step d limits offset token)
  match token with
  | .bracket =>
    let (b, after) ← Bracket.read offset after
    return (r.push (.leaf (.bracket b) .once) 1 0, after)
  | _ => return (r, after)

def finish (limits : CompileLimits) (r : Reader) (offset : Nat) : Except PatternError Pattern :=
  match r.outer with
  | _ :: _ => .error ⟨r.scope.opened, .unmatchedParen⟩
  | [] =>
    if limits.instructions < r.size + chainEnd r.scope + 1 then .error ⟨offset, .patternTooLarge⟩
    else .ok r.scope.items.reverse

/-- Read tokens to the end. Every token takes a character, so as many steps as characters are
enough. -/
def readAll (d : Dialect) (limits : CompileLimits) :
    Nat → Reader → Cursor → Except PatternError Pattern
  | 0, r, c => r.finish limits c.offset
  | steps + 1, r, c =>
    match c.next? with
    | none => r.finish limits c.offset
    | some (x, after) => do
      let (r, after) ← r.readToken d limits x c.offset after
      if limits.instructions < r.size then .error ⟨c.offset, .patternTooLarge⟩
      else readAll d limits steps r after

end Reader

def Pattern.read (d : Dialect) (limits : CompileLimits) (text : List Char) :
    Except PatternError Pattern :=
  Reader.readAll d limits text.length Reader.start (Cursor.ofList text)

end PosixRegex
