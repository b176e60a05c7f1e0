import PosixRegex.Colors
import PosixRegex.Program
import PosixRegex.Text.Quoted

namespace PosixRegex

namespace Listing

def unit (n : Nat) : String :=
  let c := Char.ofNat n
  if n.isValidChar && CharClass.isAsciiGraphic c then c.toString
  else if n.isValidChar && 0x80 ≤ n && !Unicode.isControl c && !Unicode.isWhiteSpace c then
    c.toString
  else if n ≤ 0xFF then "\\x" ++ String.ofList ((Text.hex n).toList.leftpad 2 '0')
  else Text.unicodeEscape n

def range (r : ClosedRange) : String :=
  if r.lo = r.hi then unit r.lo else unit r.lo ++ "-" ++ unit r.hi

def ranges (rs : List ClosedRange) : String := String.join (rs.map range)

def bracketed (negated : Bool) (body : String) : String :=
  if negated then "[^" ++ body ++ "]" else "[" ++ body ++ "]"

/-- A negated set shows the characters that it excludes. -/
def narrowSet (s : NarrowSet) : String :=
  bracketed s.negated (ranges (if s.negated then s.bytes.complement else s.bytes).ranges)

def weightSet (s : WeightSet) : String :=
  bracketed s.negated <|
    ranges s.members.ranges ++ String.join (s.classes.map (fun k => "[:" ++ k.name ++ ":]"))

def wordEdge : WordEdge → String
  | .start => "word-start"
  | .finish => "word-end"
  | .either => "word-boundary"
  | .neither => "not-word-boundary"

def consumer (colors : Colors) : Consumer → String
  | .literal c => "char " ++ colors.paint .green (Text.quoteChar c)
  | .literalFold a b =>
    "char~ " ++ colors.paint .green (Text.quoteChar a ++ "|" ++ Text.quoteChar b)
  | .text cs => "str " ++ colors.paint .green (Text.quoteText cs)
  | .textFold pairs => "str~ " ++ colors.paint .green (Text.quoteText (pairs.map (·.1)))
  | .any => "any"
  | .anyButNewline => "any-nl"
  | .narrow s => "set " ++ narrowSet s
  | .weighted s => "wset " ++ weightSet s
  | .backRef g => s!"backref #{g}"
  | .backRefFold g => s!"backref~ #{g}"

def atom (colors : Colors) : Atom → String
  | .consume what => consumer colors what
  | .assert .lineStart => "bol"
  | .assert .lineEnd => "eol"
  | .assert (.word edge) => wordEdge edge
  | .enter g => colors.paint .blue s!"open #{g}"
  | .leave g => colors.paint .blue s!"close #{g}"
  | .branch 0 => colors.paint .blue "alt end"
  | .branch next => colors.paint .blue s!"alt +{next}"
  | .join g => colors.paint .blue s!"alt-done #{g}"
  | .accept => "end"

def inst (colors : Colors) (i : Inst) : String :=
  if i.times.isOnce then atom colors i.atom
  else atom colors i.atom ++ colors.paint .dim i.times.suffix

def firstBytes (s : ByteSet) : String :=
  if s.isFull then "any"
  else if s.isEmpty then "none"
  else " ".intercalate (s.ranges.map range)

def indexWidth (count : Nat) : Nat := (toString (count - 1)).length

end Listing

def Program.listing (p : Program) (colors : Colors) : List String :=
  let width := Listing.indexWidth p.insts.size
  ["[groups]"] ++
    p.groups.toList.zipIdx.map (fun (span, g) =>
      colors.paint .blue s!"#{g}" ++ s!"  {span.start}..{span.stop}") ++
    ["", "[first]", Listing.firstBytes p.firstBytes, "", "[code]"] ++
    p.insts.toList.zipIdx.map (fun (i, pc) =>
      colors.paint .dim (Text.padLeft width (toString pc)) ++ "  " ++ Listing.inst colors i)

end PosixRegex
