import PosixRegex.Unicode.Alphabetic
import PosixRegex.Unicode.Case
import PosixRegex.Unicode.Numeric
import PosixRegex.Unicode.Space

namespace PosixRegex

inductive CharClass
  | alnum | alpha | blank | cntrl | digit | graph | lower | print | punct | space | upper | xdigit
  deriving DecidableEq, Repr

namespace CharClass

def all : List CharClass :=
  [alnum, alpha, blank, cntrl, digit, graph, lower, print, punct, space, upper, xdigit]

def name : CharClass → String
  | alnum => "alnum"
  | alpha => "alpha"
  | blank => "blank"
  | cntrl => "cntrl"
  | digit => "digit"
  | graph => "graph"
  | lower => "lower"
  | print => "print"
  | punct => "punct"
  | space => "space"
  | upper => "upper"
  | xdigit => "xdigit"

def ofName? (name : String) : Option CharClass :=
  all.find? (·.name == name)

theorem mem_all (k : CharClass) : k ∈ all := by
  cases k <;> decide

theorem ofName?_name (k : CharClass) : ofName? k.name = some k := by
  cases k <;> decide

/-- The class that a search without regard to case adds. -/
def opposite? : CharClass → Option CharClass
  | upper => some lower
  | lower => some upper
  | _ => none

def isAsciiGraphic (c : Char) : Bool :=
  0x21 ≤ c.toNat && c.toNat < 0x7F

def isAsciiPunct (c : Char) : Bool :=
  isAsciiGraphic c && !c.isAlphanum

def isHexDigit (c : Char) : Bool :=
  c.isDigit || ('a' ≤ c && c ≤ 'f') || ('A' ≤ c && c ≤ 'F')

/-- Membership in the POSIX locale, where no class reaches beyond ASCII. -/
def holdsPosix : CharClass → Char → Bool
  | alnum, c => c.isAlphanum
  | alpha, c => c.isAlpha
  | blank, c => c == ' ' || c == '\t'
  | cntrl, c => c.toNat < 0x20 || c.toNat == 0x7F
  | digit, c => c.isDigit
  | graph, c => isAsciiGraphic c
  | lower, c => c.isLower
  | print, c => isAsciiGraphic c || c == ' '
  | punct, c => isAsciiPunct c
  | space, c => c == ' ' || (0x09 ≤ c.toNat && c.toNat ≤ 0x0D)
  | upper, c => c.isUpper
  | xdigit, c => isHexDigit c

/-- Membership by Unicode properties. Only the digits stay ASCII, and beyond ASCII every visible
character that is no letter and no number counts as punctuation. -/
def holdsUnicode : CharClass → Char → Bool
  | alnum, c => Unicode.isAlphabetic c || Unicode.isNumeric c
  | alpha, c => Unicode.isAlphabetic c
  | blank, c => c == '\t' || (Unicode.isWhiteSpace c && !Unicode.isLineBreak c)
  | cntrl, c => Unicode.isControl c
  | digit, c => c.isDigit
  | graph, c => !Unicode.isControl c && !Unicode.isWhiteSpace c
  | lower, c => Unicode.isLowercase c
  | print, c => !Unicode.isControl c && (c == ' ' || !Unicode.isWhiteSpace c)
  | punct, c => isAsciiPunct c ||
      (0x80 ≤ c.toNat && !Unicode.isAlphabetic c && !Unicode.isNumeric c &&
        !Unicode.isWhiteSpace c && !Unicode.isControl c)
  | space, c => Unicode.isWhiteSpace c
  | upper, c => Unicode.isUppercase c
  | xdigit, c => isHexDigit c

end CharClass

end PosixRegex
