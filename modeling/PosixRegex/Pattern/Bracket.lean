import PosixRegex.CharClass
import PosixRegex.CollatingSymbol
import PosixRegex.Locale
import PosixRegex.Pattern.Cursor
import PosixRegex.Pattern.Error

namespace PosixRegex

inductive BracketItem
  | char (c : Char)
  | range (lo hi : Char)
  | cls (k : CharClass)
  | equivalence (c : Char)
  deriving DecidableEq, Repr

structure Bracket where
  negated : Bool
  items : List BracketItem
  deriving DecidableEq, Repr

namespace Bracket

inductive Element
  | char (c : Char)
  | cls (k : CharClass)
  | equivalence (c : Char)

def tokenKind? (c : Cursor) : Option Char :=
  match c.rest with
  | '[' :: k :: _ => if k == ':' || k == '=' || k == '.' then some k else none
  | _ => none

def readBody (k : Char) (c : Cursor) : Except PatternError (List Char × Cursor) :=
  match Cursor.until? ⟨c.rest.drop 2, c.offset + 2⟩ k ']' with
  | none => .error ⟨c.offset, .badBracketToken⟩
  | some found => .ok found

def symbol (offset : Nat) (body : List Char) : Except PatternError Char :=
  match CollatingSymbol.resolve? body with
  | none => .error ⟨offset, .invalidCollatingElement⟩
  | some c => .ok c

def readChar (opened : Nat) (c : Cursor) : Except PatternError (Char × Cursor) :=
  match c.next? with
  | none => .error ⟨opened, .unmatchedBracket⟩
  | some found => .ok found

def readElement (opened : Nat) (c : Cursor) : Except PatternError (Element × Cursor) := do
  match tokenKind? c with
  | none =>
    let (x, after) ← readChar opened c
    return (.char x, after)
  | some k =>
    let (body, after) ← readBody k c
    if k == ':' then
      match CharClass.ofName? (String.ofList body) with
      | none => .error ⟨c.offset, .unknownClass⟩
      | some cls => return (.cls cls, after)
    else
      let x ← symbol c.offset body
      return (if k == '=' then .equivalence x else .char x, after)

def readRangeEnd (opened : Nat) (c : Cursor) : Except PatternError (Char × Cursor) := do
  match tokenKind? c with
  | none => readChar opened c
  | some '.' =>
    let (body, after) ← readBody '.' c
    return (← symbol c.offset body, after)
  | some _ => .error ⟨c.offset, .rangeOutOfOrder⟩

/-- Pass over a hyphen that stands for a range, which the last character of the brackets and the
last one of the pattern do not. -/
def hyphen? (c : Cursor) : Option Cursor :=
  match c.rest with
  | '-' :: x :: xs => if x == ']' then none else some ⟨x :: xs, c.offset + 1⟩
  | _ => none

/-- Read one item. A range whose ends are out of order is blamed on its first character. -/
def readItem (opened : Nat) (c : Cursor) : Except PatternError (BracketItem × Cursor) := do
  let (e, after) ← readElement opened c
  match e with
  | .cls k => return (.cls k, after)
  | .equivalence x => return (.equivalence x, after)
  | .char lo =>
    match hyphen? after with
    | none => return (.char lo, after)
    | some after =>
      let (hi, after) ← readRangeEnd opened after
      if Locale.uniqueWeight hi < Locale.uniqueWeight lo then
        .error ⟨c.offset, .rangeOutOfOrder⟩
      else
        return (.range lo hi, after)

/-- Read items up to the closing bracket. A bracket in first place is an ordinary character.
Every item takes a character, so as many steps as characters are enough. -/
def readItems (opened : Nat) :
    Nat → (first : Bool) → Cursor → Except PatternError (List BracketItem × Cursor)
  | 0, _, _ => .error ⟨opened, .unmatchedBracket⟩
  | steps + 1, first, c =>
    match c.next? with
    | none => .error ⟨opened, .unmatchedBracket⟩
    | some (x, after) =>
      if x == ']' && !first then .ok ([], after)
      else do
        let (i, after) ← readItem opened c
        let (is, after) ← readItems opened steps false after
        return (i :: is, after)

def read (opened : Nat) (c : Cursor) : Except PatternError (Bracket × Cursor) := do
  let body := c.eat? ['^']
  let start := body.getD c
  let (is, after) ← readItems opened (start.rest.length + 1) true start
  return (⟨body.isSome, is⟩, after)

end Bracket

end PosixRegex
