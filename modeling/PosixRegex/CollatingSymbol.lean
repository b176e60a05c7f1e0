namespace PosixRegex.CollatingSymbol

def names : List (String × Char) :=
  [("NUL", '\x00'), ("tab", '\t'), ("newline", '\n'), ("vertical-tab", '\x0b'),
    ("form-feed", '\x0c'), ("carriage-return", '\r'), ("space", ' '), ("exclamation-mark", '!'),
    ("quotation-mark", '"'), ("number-sign", '#'), ("dollar-sign", '$'), ("percent-sign", '%'),
    ("ampersand", '&'), ("apostrophe", '\''), ("left-parenthesis", '('),
    ("right-parenthesis", ')'), ("asterisk", '*'), ("plus-sign", '+'), ("comma", ','),
    ("hyphen", '-'), ("hyphen-minus", '-'), ("period", '.'), ("full-stop", '.'), ("slash", '/'),
    ("solidus", '/'), ("zero", '0'), ("one", '1'), ("two", '2'), ("three", '3'), ("four", '4'),
    ("five", '5'), ("six", '6'), ("seven", '7'), ("eight", '8'), ("nine", '9'), ("colon", ':'),
    ("semicolon", ';'), ("less-than-sign", '<'), ("equals-sign", '='), ("greater-than-sign", '>'),
    ("question-mark", '?'), ("commercial-at", '@'), ("left-square-bracket", '['),
    ("backslash", '\\'), ("reverse-solidus", '\\'), ("right-square-bracket", ']'),
    ("circumflex", '^'), ("circumflex-accent", '^'), ("underscore", '_'), ("low-line", '_'),
    ("grave-accent", '\x60'), ("left-brace", '\x7b'), ("left-curly-bracket", '\x7b'),
    ("vertical-line", '|'), ("right-brace", '\x7d'), ("right-curly-bracket", '\x7d'),
    ("tilde", '~'), ("DEL", '\x7f')]

/-- A single character stands for itself, anything longer is looked up. -/
def resolve? : List Char → Option Char
  | [c] => some c
  | body => names.lookup (String.ofList body)

end PosixRegex.CollatingSymbol
