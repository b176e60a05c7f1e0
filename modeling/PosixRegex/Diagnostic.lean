import PosixRegex.Pattern.Error
import PosixRegex.Unicode.Space
import PosixRegex.Unicode.Width

namespace PosixRegex

structure Line where
  chars : List Char
  bytes : Nat

namespace Line

/-- The lines of a text. A line feed ends a line, and a carriage return right before it belongs to
the break. A break at the end of the text starts no further line. -/
def split : List Char → List Line
  | [] => []
  | '\n' :: cs => ⟨[], 1⟩ :: split cs
  | '\r' :: '\n' :: cs => ⟨[], 2⟩ :: split cs
  | c :: cs =>
    match split cs with
    | [] => [⟨[c], c.utf8Size⟩]
    | line :: lines => ⟨c :: line.chars, c.utf8Size + line.bytes⟩ :: lines

end Line

structure FaultyLine where
  number : Nat
  before : List Char
  after : List Char

namespace FaultyLine

def cut (number : Nat) : Nat → List Char → FaultyLine
  | 0, cs => ⟨number, [], cs⟩
  | _, [] => ⟨number, [], []⟩
  | offset + 1, c :: cs =>
    let rest := cut number (offset + 1 - c.utf8Size) cs
    ⟨number, c :: rest.before, rest.after⟩

/-- Find the byte `offset`, counted from the start of `line`, in that line or those behind it.
What lies beyond the last line is taken for its end. -/
def findIn (number offset : Nat) (line : Line) : List Line → FaultyLine
  | [] => cut number offset line.chars
  | next :: lines =>
    if offset < line.bytes then cut number offset line.chars
    else findIn (number + 1) (offset - line.bytes) next lines

/-- The line that holds a byte offset. An empty text is one empty line. -/
def find (text : List Char) (offset : Nat) : FaultyLine :=
  match Line.split text with
  | [] => ⟨1, [], []⟩
  | line :: lines => findIn 1 offset line lines

end FaultyLine

namespace Diagnostic

def isBidiControl (c : Char) : Bool :=
  (0x202A ≤ c.toNat && c.toNat ≤ 0x202E) || (0x2066 ≤ c.toNat && c.toNat ≤ 0x2069)

/-- How a character is shown. Control characters have pictures, and a tab is four blanks. -/
def shown (c : Char) : List Char :=
  if c == '\t' then [' ', ' ', ' ', ' ']
  else if c.toNat < 0x20 then [Char.ofNat (0x2400 + c.toNat)]
  else if c.toNat == 0x7F then ['\u2421']
  else if c.toNat == 0x200D then []
  else if isBidiControl c then ['\ufffd']
  else [c]

def columns (c : Char) : Nat :=
  if c == '\t' then 4
  else if Unicode.isControl c || isBidiControl c then 1
  else Unicode.width c

def totalColumns : List Char → Nat
  | [] => 0
  | c :: cs => columns c + totalColumns cs

def styled (colored : Bool) (codes text : String) : String :=
  if colored then codes ++ text ++ "\x1b[0m" else text

def red (colored : Bool) : String → String := styled colored "\x1b[1m\x1b[91m"

def blue (colored : Bool) : String → String := styled colored "\x1b[1m\x1b[94m"

def bold (colored : Bool) : String → String := styled colored "\x1b[1m"

def blanks (n : Nat) : String := String.ofList (List.replicate n ' ')

/-- The title, the line of the fault under its number, and a remark below the faulty character.
The character is underlined in its whole width, at least one column. -/
def render (colored : Bool) (title label : String) (text : List Char) (offset : Nat) :
    List String :=
  let found := FaultyLine.find text offset
  let number := toString found.number
  let gutter := blanks number.length ++ " " ++ blue colored "|"
  let line := String.ofList ((found.before ++ found.after).flatMap shown)
  let indent := totalColumns found.before
  let mark := max 1 ((found.after.head?.map columns).getD 1)
  [red colored "error" ++ bold colored (": " ++ title),
    gutter,
    blue colored number ++ " " ++ blue colored "|" ++ (if line.isEmpty then "" else " " ++ line),
    gutter ++ " " ++ blanks indent ++ red colored (String.ofList (List.replicate mark '^')) ++
      " " ++ red colored label]

end Diagnostic

def PatternError.render (e : PatternError) (pattern : List Char) (colored : Bool) : List String :=
  Diagnostic.render colored e.fault.text e.fault.label pattern e.offset

end PosixRegex
