namespace PosixRegex

inductive PatternFault
  | badRepetition
  | unmatchedParen
  | unmatchedBracket
  | badBracketToken
  | unknownClass
  | invalidCollatingElement
  | rangeOutOfOrder
  | invalidBackReference
  | badInterval
  | anchorNotLast
  | trailingBackslash
  | patternTooLarge
  deriving DecidableEq, Repr

namespace PatternFault

def text : PatternFault → String
  | badRepetition => "repetition operator has nothing to repeat"
  | unmatchedParen => "unmatched parenthesis"
  | unmatchedBracket => "unmatched [ or [^"
  | badBracketToken => "malformed [: :], [= =] or [. .] token"
  | unknownClass => "unknown character class name"
  | invalidCollatingElement => "invalid collating element"
  | rangeOutOfOrder => "range end point precedes start point"
  | invalidBackReference => "back-reference to a group that is not closed"
  | badInterval => "invalid interval bounds"
  | anchorNotLast => "\x60$\x60 anchor must be last in its alternative"
  | trailingBackslash => "trailing backslash"
  | patternTooLarge => "pattern too large"

def label : PatternFault → String
  | badRepetition => "quantifier without operand"
  | unmatchedParen => "this parenthesis is never matched"
  | unmatchedBracket => "bracket expression starts here"
  | badBracketToken => "token is not terminated"
  | unknownClass => "not a POSIX class"
  | invalidCollatingElement => "unknown collating element"
  | rangeOutOfOrder => "descending range"
  | invalidBackReference => "group not available here"
  | badInterval => "interval starts here"
  | anchorNotLast => "atom follows \x60$\x60"
  | trailingBackslash => "nothing to escape"
  | patternTooLarge => "limit reached here"

end PatternFault

structure PatternError where
  offset : Nat
  fault : PatternFault
  deriving DecidableEq, Repr

def PatternError.message (e : PatternError) : String :=
  e.fault.text ++ s!" at offset {e.offset}"

end PosixRegex
