import PosixRegex.CharClass

/-!
Locales: what a search has to know about characters. Both locales order characters by code point.
The POSIX locale knows ASCII letters only. The Unicode locale has the case pairs and classes of
Unicode, and gives a Latin letter with a diacritic the primary weight of its base letter.
-/

namespace PosixRegex

inductive Locale
  | posix
  | unicode
  deriving DecidableEq, Repr

namespace Locale

def uniqueWeight (c : Char) : Nat := c.toNat

/-- The character of a weight; surrogates and numbers beyond Unicode have none. -/
def charOfWeight? (w : Nat) : Option Char :=
  if w.isValidChar then some (Char.ofNat w) else none

def lastDecomposable : Nat := 0x17F

def baseLetters : List (Char × List Char) :=
  [('A', "ÀÁÂÃÄÅĀĂĄ".toList), ('a', "àáâãäåāăą".toList), ('C', "ÇĆĈĊČ".toList),
    ('c', "çćĉċč".toList), ('D', "ĎĐ".toList), ('d', "ďđ".toList), ('E', "ÈÉÊËĒĔĖĘĚ".toList),
    ('e', "èéêëēĕėęě".toList), ('G', "ĜĞĠĢ".toList), ('g', "ĝğġģ".toList), ('H', "ĤĦ".toList),
    ('h', "ĥħ".toList), ('I', "ÌÍÎÏĨĪĬĮİ".toList), ('i', "ìíîïĩīĭį".toList), ('J', "Ĵ".toList),
    ('j', "ĵ".toList), ('K', "Ķ".toList), ('k', "ķ".toList), ('L', "ĹĻĽĿŁ".toList),
    ('l', "ĺļľŀł".toList), ('N', "ÑŃŅŇ".toList), ('n', "ñńņň".toList),
    ('O', "ÒÓÔÕÖØŌŎŐ".toList), ('o', "òóôõöøōŏő".toList), ('R', "ŔŖŘ".toList),
    ('r', "ŕŗř".toList), ('S', "ŚŜŞŠ".toList), ('s', "śŝşš".toList), ('T', "ŢŤŦ".toList),
    ('t', "ţťŧ".toList), ('U', "ÙÚÛÜŨŪŬŮŰŲ".toList), ('u', "ùúûüũūŭůűų".toList),
    ('W', "Ŵ".toList), ('w', "ŵ".toList), ('Y', "ÝŶŸ".toList), ('y', "ýÿŷ".toList),
    ('Z', "ŹŻŽ".toList), ('z', "źżž".toList)]

def baseLetter (c : Char) : Char :=
  if c.toNat < 0x80 || lastDecomposable < c.toNat then c
  else ((baseLetters.find? (·.2.contains c)).map (·.1)).getD c

def primaryWeight : Locale → Char → Nat
  | posix, c => c.toNat
  | unicode, c => (baseLetter c).toNat

def equivalents (l : Locale) (c : Char) : List Char :=
  match l with
  | posix => [c]
  | unicode =>
    let weight := primaryWeight unicode c
    if lastDecomposable < weight then [c]
    else ((List.range (lastDecomposable + 1)).map Char.ofNat).filter
      (primaryWeight unicode · == weight)

def isClass : Locale → CharClass → Char → Bool
  | posix, k, c => k.holdsPosix c
  | unicode, k, c => k.holdsUnicode c

/-- The same letter in the other case, if there is exactly one. In the Unicode locale a letter
without a counterpart is its own. -/
def opposite? : Locale → Char → Option Char
  | posix, c =>
    if c.isLower then some c.toUpper
    else if c.isUpper then some c.toLower
    else none
  | unicode, c =>
    if Unicode.isLowercase c then Unicode.toUppercase? c
    else if Unicode.isUppercase c then Unicode.toLowercase? c
    else none

/-- Whether `b` may stand for `a` when case does not matter. The relation is not symmetric: the
counterpart of `a` can have another counterpart. -/
def foldEq (l : Locale) (a b : Char) : Bool :=
  a == b || l.opposite? a == some b

def isWord (l : Locale) (c : Char) : Bool :=
  c == '_' || l.isClass .alnum c

/-- Whether brackets of this locale can be decided by a table over the codes up to 255. -/
def isByteIndexed : Locale → Bool
  | posix => true
  | unicode => false

end Locale

end PosixRegex
