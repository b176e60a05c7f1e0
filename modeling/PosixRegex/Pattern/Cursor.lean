import PosixRegex.Text.Bytes

namespace PosixRegex

structure Cursor where
  rest : List Char
  offset : Nat
  deriving DecidableEq, Repr

namespace Cursor

def ofList (cs : List Char) : Cursor := ⟨cs, 0⟩

def next? (c : Cursor) : Option (Char × Cursor) :=
  match c.rest with
  | [] => none
  | x :: xs => some (x, ⟨xs, c.offset + x.utf8Size⟩)

def eat? (c : Cursor) (word : List Char) : Option Cursor :=
  if word.isPrefixOf c.rest then
    some ⟨c.rest.drop word.length, c.offset + byteLength word⟩
  else none

def number? (c : Cursor) : Option (Nat × Cursor) :=
  match c.rest.takeWhile Char.isDigit with
  | [] => none
  | digits =>
    some (digits.foldl (fun n d => n * 10 + (d.toNat - '0'.toNat)) 0,
      ⟨c.rest.dropWhile Char.isDigit, c.offset + digits.length⟩)

def splitAt? (a b : Char) : List Char → Option (List Char × List Char)
  | x :: y :: cs =>
    if x = a ∧ y = b then some ([], cs)
    else (splitAt? a b (y :: cs)).map (fun (body, rest) => (x :: body, rest))
  | _ => none

def until? (c : Cursor) (a b : Char) : Option (List Char × Cursor) :=
  (splitAt? a b c.rest).map fun (body, rest) =>
    (body, ⟨rest, c.offset + byteLength body + a.utf8Size + b.utf8Size⟩)

end Cursor

end PosixRegex
