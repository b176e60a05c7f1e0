import PosixRegex.Program.Compile
import PosixRegex.Search.Trace

namespace PosixRegex

structure Regex where
  program : Program
  locale : Locale
  limits : SearchLimits := {}

structure Match where
  subject : Subject
  captures : Captures

namespace Match

def span (m : Match) : Span := m.captures.whole

def text (m : Match) : String := m.subject.text m.span.start m.span.stop

def group? (m : Match) (g : Nat) : Option String :=
  (m.captures.get? g).map fun s => m.subject.text s.start s.stop

end Match

namespace Regex

def compile (o : Options) (l : Locale) (text : String) (compileLimits : CompileLimits := {})
    (limits : SearchLimits := {}) : Except PatternError Regex := do
  let program ← Program.compile o l compileLimits text.toList
  return { program, locale := l, limits }

def matcher (r : Regex) (s : Subject) (flags : ExecFlags) : Matcher :=
  ⟨r.program, r.locale, s, flags⟩

def execFrom (r : Regex) (s : Subject) (start : Nat) (flags : ExecFlags) (capture : Nat) :
    Except SearchError (Option Match) := do
  let found ← (r.matcher s flags).execute r.limits start capture
  return found.map (⟨s, ·⟩)

def allCaptures (r : Regex) : Nat := r.program.groups.size

/-- The leftmost longest match at or after `start`, with every group. A line start is not made by
starting in the middle of the subject. -/
def findAt (r : Regex) (s : Subject) (start : Nat) (flags : ExecFlags) :
    Except SearchError (Option Match) :=
  r.execFrom s start flags r.allCaptures

theorem findAt_eq_map (r : Regex) (s : Subject) (start : Nat) (flags : ExecFlags) :
    r.findAt s start flags =
      ((r.matcher s flags).execute r.limits start r.allCaptures).map (Option.map (Match.mk s)) := by
  unfold findAt execFrom
  cases (r.matcher s flags).execute r.limits start r.allCaptures <;> rfl

def find (r : Regex) (s : Subject) : Except SearchError (Option Match) := r.findAt s 0 {}

def exec (r : Regex) (s : Subject) (flags : ExecFlags) (capture : Nat) :
    Except SearchError (Option Match) :=
  r.execFrom s 0 flags capture

def isMatch (r : Regex) (s : Subject) : Except SearchError Bool :=
  (r.exec s {} 1).map Option.isSome

/-- Where to look for the next match. An empty match is followed by the next character. -/
def resumeAfter (m : Match) : Option Nat :=
  if m.span.isEmpty then
    (m.subject.decode? m.span.stop).map fun (_, width) => m.span.stop + width
  else some m.span.stop

/-- At most `count` successive matches from `start` on. An error is the last item. -/
def matchesFrom (r : Regex) (s : Subject) (flags : ExecFlags) :
    (count start : Nat) → List (Except SearchError Match)
  | 0, _ => []
  | count + 1, start =>
    match r.findAt s start flags with
    | .error e => [.error e]
    | .ok none => []
    | .ok (some m) =>
      .ok m ::
        match resumeAfter m with
        | none => []
        | some start => r.matchesFrom s flags count start

/-- Successive matches that do not overlap, from left to right. There are no more of them than
places where one can start. -/
def matchesOf (r : Regex) (s : Subject) (flags : ExecFlags) : List (Except SearchError Match) :=
  r.matchesFrom s flags (s.size + 1) 0

def traceLines (r : Regex) (s : Subject) (flags : ExecFlags) (colors : Colors) : List String :=
  (r.matcher s flags).traceLines r.limits 0 colors

end Regex

end PosixRegex
