import PosixRegex.Program.Listing
import PosixRegex.Search.Run

namespace PosixRegex

inductive Event
  | attempt (pos : Nat)
  | instruction (pc : Nat) (i : Inst) (pos : Nat)
  | enter (group pos : Nat)
  | leave (group pos : Nat)
  /-- A path has failed that had started at `pos`, by the choice of instruction `pc`. -/
  | backtrack (pc pos : Nat)
  /-- An alternative has been tried; `stop` is the end of the match that it led to. -/
  | branch (marker : Nat) (stop : Option Nat)
  | accept (span : Span)

namespace Event

def indexed (width pc : Nat) (body : String) : String :=
  "  " ++ Text.padLeft width (toString pc) ++ "  " ++ body

def line (colors : Colors) (width : Nat) : Event → String
  | attempt pos => "attempt " ++ place pos
  | instruction pc i pos => indexed width pc (Listing.inst colors i ++ "  " ++ place pos)
  | enter g pos => "    enter " ++ group g ++ " " ++ place pos
  | leave g pos => "    exit " ++ group g ++ " " ++ place pos
  | backtrack pc pos => indexed width pc ("backtrack " ++ place pos)
  | branch marker none => indexed width marker "branch failed"
  | branch marker (some stop) => indexed width marker ("branch ok, match ends " ++ place stop)
  | accept span => colors.paint .green s!"accept {span.start}..{span.stop}"
where
  place (pos : Nat) : String := colors.paint .dim s!"@{pos}"
  group (g : Nat) : String := colors.paint .blue s!"#{g}"

end Event

namespace Matcher

/-- What the next step is noted as. The repetitions of an instruction are not noted. -/
def stepEvents (m : Matcher) : Config → List Event
  | .ready t =>
    match m.program.insts[t.pc]? with
    | none => []
    | some i =>
      .instruction t.pc i t.pos ::
        match i.atom with
        | .enter g => [.enter g t.pos]
        | .leave g => [.leave g t.pos]
        | _ => []
  | .repeating .. => []

end Matcher

/-- What a checkpoint notes after a path has ended. -/
def Checkpoint.events (result : Option Outcome) : Checkpoint → List Event
  | retry pc _ _ _ _ last => if result.isNone then [.backtrack pc last] else []
  | longest marker .. => [.branch marker (result.map (·.stop))]

namespace Matcher

/-- What the checkpoints note until one has a path to run. -/
def unwindEvents (m : Matcher) : List Checkpoint → Option Outcome → List Event
  | [], _ => []
  | k :: items, result =>
    k.events result ++
      match m.settle result k with
      | .answer result => m.unwindEvents items result
      | _ => []

/-- Extend `log` by the events of a run. -/
def runEvents (m : Matcher) (limits : SearchLimits) :
    (fuel : Nat) → Config → Stack → (log : Array Event) → Array Event
  | 0, _, _, log => log
  | fuel + 1, c, stack, log =>
    let log := log ++ m.stepEvents c
    match m.step c with
    | .go c => m.runEvents limits fuel c stack log
    | .choose k c =>
      if limits.recursion ≤ stack.size then log
      else m.runEvents limits fuel c (stack.push k) log
    | .abort _ => log
    | .stop result =>
      let log := log ++ m.unwindEvents stack.items result
      match m.unwind stack.items stack.size stack.size_eq result with
      | .resume t stack => m.runEvents limits fuel (.ready t) stack log
      | _ => log

/-- Extend `log` by the events of a scan. -/
def scanEvents (m : Matcher) (limits : SearchLimits) :
    (count pos fuel : Nat) → (log : Array Event) → Array Event
  | 0, _, _, log => log
  | count + 1, pos, fuel, log =>
    if m.admits pos then
      let log := m.runEvents limits fuel (.ready (m.startThread pos)) .empty
        (log.push (.attempt pos))
      let ended := m.search limits fuel pos
      match ended.result with
      | .ok (some o) => log.push (.accept ⟨pos, o.stop⟩)
      | .ok none => m.scanEvents limits count (pos + 1) ended.fuel log
      | .error _ => log
    else m.scanEvents limits count (pos + 1) fuel log

def events (m : Matcher) (limits : SearchLimits) (start : Nat) : Array Event :=
  m.scanEvents limits (m.subject.size + 1 - start) start limits.fuel #[]

def traceLines (m : Matcher) (limits : SearchLimits) (start : Nat) (colors : Colors) :
    List String :=
  (m.events limits start).toList.map
    (Event.line colors (Listing.indexWidth m.program.insts.size))

end Matcher

end PosixRegex
