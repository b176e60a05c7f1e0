import PosixRegex.Instruction
import PosixRegex.Pattern.Error
import PosixRegex.Pattern.Interval

namespace PosixRegex

inductive Token
  | char (c : Char)
  | any
  | bracket
  | backRef (group : Nat)
  | word (edge : WordEdge)
  | star
  | caret
  | dollar
  | quantifier (times : Repetition)
  | openGroup
  | closeGroup
  | bar
  deriving DecidableEq, Repr

namespace Token

/-- A quantifier in braces. Braces without bounds are a literal brace in the extended dialect and
an error in the basic one. -/
def readInterval (d : Dialect) (c : Cursor) : Except PatternFault (Token × Cursor) :=
  match Bounds.read? d c with
  | some (bounds, after) =>
    match bounds.repetition? with
    | some times => .ok (.quantifier times, after)
    | none => .error .badInterval
  | none =>
    match d with
    | .basic => .error .badInterval
    | .extended => .ok (.char '\x7b', c)

def endsExpression (c : Cursor) : Bool :=
  match c.rest with
  | [] => true
  | '\\' :: x :: _ => x == ')' || x == '|'
  | _ => false

def readBasicOperator? (x : Char) (c : Cursor) : Option (Except PatternFault (Token × Cursor)) :=
  match x with
  | '(' => some (.ok (.openGroup, c))
  | ')' => some (.ok (.closeGroup, c))
  | '\x7b' => some (readInterval .basic c)
  | '|' => some (.ok (.bar, c))
  | '+' => some (.ok (.quantifier .plus, c))
  | '?' => some (.ok (.quantifier .optional, c))
  | _ => none

def ofEscape (x : Char) : Token :=
  if '1' ≤ x ∧ x ≤ '9' then .backRef (x.toNat - '0'.toNat)
  else match x with
    | '<' => .word .start
    | '>' => .word .finish
    | 'b' => .word .either
    | 'B' => .word .neither
    | _ => .char x

def readEscape (d : Dialect) (c : Cursor) : Except PatternFault (Token × Cursor) :=
  match c.next? with
  | none => .error .trailingBackslash
  | some (x, after) =>
    match d with
    | .basic => (readBasicOperator? x after).getD (.ok (ofEscape x, after))
    | .extended => .ok (ofEscape x, after)

def readExtendedOperator? (x : Char) (c : Cursor) :
    Option (Except PatternFault (Token × Cursor)) :=
  match x with
  | '$' => some (.ok (.dollar, c))
  | '+' => some (.ok (.quantifier .plus, c))
  | '?' => some (.ok (.quantifier .optional, c))
  | '\x7b' => some (readInterval .extended c)
  | '(' => some (.ok (.openGroup, c))
  | ')' => some (.ok (.closeGroup, c))
  | '|' => some (.ok (.bar, c))
  | _ => none

def read (d : Dialect) (x : Char) (c : Cursor) : Except PatternFault (Token × Cursor) :=
  match x with
  | '\\' => readEscape d c
  | '[' => .ok (.bracket, c)
  | '.' => .ok (.any, c)
  | '*' => .ok (.star, c)
  | '^' => .ok (.caret, c)
  | _ =>
    match d with
    | .basic => .ok (if x == '$' && endsExpression c then .dollar else .char x, c)
    | .extended => (readExtendedOperator? x c).getD (.ok (.char x, c))

end Token

end PosixRegex
