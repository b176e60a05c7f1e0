import PosixRegex.Pattern.Code
import PosixRegex.Pattern.Reader
import PosixRegex.Program.FirstBytes

namespace PosixRegex

namespace Program

def placeMarker (groups : Array GroupSpan) (i : Inst) (pc : Nat) : Array GroupSpan :=
  match i.atom with
  | .enter g => groups.modify g ({ · with start := pc })
  | .leave g => groups.modify g ({ · with stop := pc })
  | .accept => groups.modify 0 ({ · with stop := pc })
  | _ => groups

def groupSpans (insts : List Inst) (count : Nat) : Array GroupSpan :=
  insts.zipIdx.foldl (fun groups (i, pc) => placeMarker groups i pc)
    (Array.replicate (count + 1) ⟨0, 0⟩)

def ofPattern (t : Target) (p : Pattern) : Program :=
  let code := p.code t
  let insts := code.toArray
  let groups := groupSpans code p.groupCount
  { insts
    groups
    firstBytes := computeFirstBytes insts groups
    flags :=
      { ignoreCase := t.options.ignoreCase
        newlineSensitive := t.options.newlineSensitive
        noCapture := t.options.noCapture
        anchored := !t.options.newlineSensitive &&
          insts[0]?.any (·.atom == .assert .lineStart) } }

def compile (o : Options) (l : Locale) (limits : CompileLimits) (text : List Char) :
    Except PatternError Program := do
  let p ← Pattern.read o.dialect limits text
  return ofPattern ⟨o, l, limits.run⟩ p

end Program

end PosixRegex
