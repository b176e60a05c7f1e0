import PosixRegex.Program
import PosixRegex.Search.Slot
import PosixRegex.Subject

namespace PosixRegex

structure ExecFlags where
  notBol : Bool := false
  notEol : Bool := false
  deriving DecidableEq, Repr

structure Matcher where
  program : Program
  locale : Locale
  subject : Subject
  flags : ExecFlags

namespace Matcher

def atLineStart (m : Matcher) (pos : Nat) : Bool :=
  if pos = 0 then !m.flags.notBol
  else m.program.flags.newlineSensitive && m.subject.charAt? (pos - 1) == some '\n'

def atLineEnd (m : Matcher) (pos : Nat) : Bool :=
  if pos = m.subject.size then !m.flags.notEol
  else m.program.flags.newlineSensitive && m.subject.charAt? pos == some '\n'

def atWordEdge (m : Matcher) (edge : WordEdge) (pos : Nat) : Bool :=
  let before := (m.subject.charBefore? pos).any m.locale.isWord
  let after := (m.subject.charAt? pos).any m.locale.isWord
  match edge with
  | .start => !before && after
  | .finish => before && !after
  | .either => before != after
  | .neither => before == after

def holds (m : Matcher) (what : Assertion) (pos : Nat) : Bool :=
  match what with
  | .lineStart => m.atLineStart pos
  | .lineEnd => m.atLineEnd pos
  | .word edge => m.atWordEdge edge pos

def captured? (m : Matcher) (slots : Slots) (group : Nat) : Option (List Char) :=
  (slots[group]?.bind Slot.span?).map fun s => m.subject.slice s.start s.stop

/-- The place behind one repetition of a consumer that starts at `pos`. -/
def consume (m : Matcher) (what : Consumer) (pos : Nat) (slots : Slots) : Option Nat :=
  match what with
  | .literal c => m.subject.accept (· == c) pos
  | .literalFold a b => m.subject.accept (fun c => c == a || c == b) pos
  | .text cs => m.subject.acceptAll (cs.map fun x c => c == x) pos
  | .textFold pairs => m.subject.acceptAll (pairs.map fun (a, b) c => c == a || c == b) pos
  | .any => m.subject.accept (fun _ => true) pos
  | .anyButNewline => m.subject.accept (· != '\n') pos
  | .narrow _ | .weighted _ => m.subject.accept (what.admits m.locale) pos
  | .backRef g => do m.subject.acceptAll ((← m.captured? slots g).map fun x c => c == x) pos
  | .backRefFold g => do m.subject.acceptAll ((← m.captured? slots g).map m.locale.foldEq) pos

end Matcher

end PosixRegex
