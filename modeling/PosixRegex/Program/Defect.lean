import PosixRegex.Program

namespace PosixRegex

inductive Defect
  | missingEnd
  | groupMarkers (group : Nat)
  | groupRepeat (group : Nat)
  | danglingAlternative (pc : Nat)
  | unknownGroup (pc group : Nat)
  | repeatedAnchor (pc : Nat)
  deriving DecidableEq, Repr

def Defect.message : Defect → String
  | missingEnd => "program does not end with EndOfProgram"
  | groupMarkers g => s!"group {g} markers are missing or out of order"
  | groupRepeat g => s!"group {g} start and end markers disagree on repetition"
  | danglingAlternative pc => s!"alternative at {pc} points outside the program"
  | unknownGroup pc g => s!"instruction at {pc} references unknown group {g}"
  | repeatedAnchor pc => s!"anchor at {pc} carries a repetition"

namespace Program

/-- Group zero has to span the program, and the program has to end by accepting. -/
def frameDefect? (p : Program) : Option Defect :=
  match p.insts.back?, p.groups[0]? with
  | none, _ => some .missingEnd
  | some final, whole =>
    if final.atom != .accept then some .missingEnd
    else if whole != some ⟨0, p.insts.size - 1⟩ then some (.groupMarkers 0)
    else none

/-- The markers of a group stand in order and carry the same repetition. -/
def groupDefect? (p : Program) (g : Nat) (span : GroupSpan) : Option Defect :=
  match p.insts[span.start]?, p.insts[span.stop]? with
  | some first, some last =>
    if span.stop ≤ span.start || first.atom != .enter g || last.atom != .leave g then
      some (.groupMarkers g)
    else if first.times != last.times then some (.groupRepeat g)
    else none
  | _, _ => some (.groupMarkers g)

/-- Alternatives lead to alternatives, references name groups, and assertions are not repeated. -/
def instDefect? (p : Program) (pc : Nat) (i : Inst) : Option Defect :=
  match i.atom with
  | .branch 0 => none
  | .branch next =>
    if (p.insts[pc + next]?).any Inst.isBranch then none else some (.danglingAlternative pc)
  | .join g | .consume (.backRef g) | .consume (.backRefFold g) =>
    if g < p.groups.size then none else some (.unknownGroup pc g)
  | .assert _ => if i.times.isOnce then none else some (.repeatedAnchor pc)
  | _ => none

/-- The first defect: of the frame, then of a group, then of an instruction. The number of a group
has 16 bits, whatever its place in the table. -/
def defect? (p : Program) : Option Defect :=
  p.frameDefect?.or <|
    ((p.groups.toList.zipIdx.drop 1).findSome? fun (span, k) =>
      p.groupDefect? (k % UInt16.size) span).or <|
      p.insts.toList.zipIdx.findSome? (fun (i, pc) => p.instDefect? pc i)

end Program

end PosixRegex
