import PosixRegex.Unicode.Printable

namespace PosixRegex.Text

def hex (n : Nat) : String := String.ofList (Nat.toDigits 16 n)

def unicodeEscape (n : Nat) : String := "\\u\x7b" ++ hex n ++ "\x7d"

def escapeChar (quote c : Char) : String :=
  if c == '\x00' then "\\0"
  else if c == '\t' then "\\t"
  else if c == '\r' then "\\r"
  else if c == '\n' then "\\n"
  else if c == '\\' || c == quote then String.ofList ['\\', c]
  else if Unicode.isExtendingMark c || !Unicode.isPrintable c then unicodeEscape c.toNat
  else c.toString

def enclose (quote : Char) (cs : List Char) : String :=
  quote.toString ++ String.join (cs.map (escapeChar quote)) ++ quote.toString

def quoteChar (c : Char) : String := enclose '\'' [c]

def quoteText (cs : List Char) : String := enclose '"' cs

def padLeft (width : Nat) (s : String) : String :=
  String.ofList (List.replicate (width - s.length) ' ') ++ s

end PosixRegex.Text
