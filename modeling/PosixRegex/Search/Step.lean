import PosixRegex.Search.Checkpoint

/-!
The steps of a search. One step executes an instruction, or makes one repetition of an instruction
that is repeated by itself. Every step costs one unit of fuel.
-/

namespace PosixRegex

inductive Config
  | ready (t : Thread)
  /-- In the middle of a repeated consumer, after `count` repetitions. `stops` are the places,
  latest first, where the repetition could have ended before. -/
  | repeating (t : Thread) (what : Consumer) (times : Repetition) (count : Nat)
      (stops : List Nat)
  deriving DecidableEq

inductive Action
  | go (c : Config)
  | choose (k : Checkpoint) (c : Config)
  | stop (result : Option Outcome)
  | abort (why : Abort)
  deriving DecidableEq

namespace Action

def malformed (why : Malformation) : Action := .abort (.error (.malformed why))

def fail : Action := .stop none

end Action

namespace Thread

def next (t : Thread) : Thread := { t with pc := t.pc + 1 }

end Thread

namespace Matcher

def endRepeat (t : Thread) (stops : List Nat) : Action :=
  match stops with
  | [] => .go (.ready t.next)
  | stop :: earlier =>
    .choose (.retry t.pc (t.pc + 1) t.slots stop earlier t.pos) (.ready t.next)

/-- Go on with a repetition, unless it has all that it needs and no room for more. -/
def continueRepeat (t : Thread) (what : Consumer) (times : Repetition) (count : Nat)
    (stops : List Nat) : Action :=
  if times.min ≤ count ∧ !times.belowMax count then endRepeat t stops
  else .go (.repeating t what times count stops)

/-- Make one repetition. Beyond the minimum it has to consume something. -/
def repeatOnce (m : Matcher) (t : Thread) (what : Consumer) (times : Repetition) (count : Nat)
    (stops : List Nat) : Action :=
  match m.consume what t.pos t.slots with
  | some pos =>
    if count < times.min then continueRepeat { t with pos } what times (count + 1) []
    else if t.pos < pos then
      continueRepeat { t with pos } what times (count + 1) (t.pos :: stops)
    else endRepeat t stops
  | none => if count < times.min then .fail else endRepeat t stops

/-- Enter a group. A group that need not take part is entered first and skipped on failure. -/
def enter (m : Matcher) (t : Thread) (g : Nat) (times : Repetition) : Action :=
  match t.slots[g]?, m.program.groups[g]? with
  | some slot, some span =>
    let entered := Config.ready
      { t.next with slots := t.slots.setIfInBounds g ⟨0, some t.pos, slot.stop⟩ }
    if times.min = 0 then
      let skipped := t.slots.setIfInBounds g ⟨slot.count, none, none⟩
      .choose (.retry t.pc (span.stop + 1) skipped t.pos [] t.pos) entered
    else .go entered
  | _, _ => .malformed (.unknownGroup g)

/-- Leave a group. Another iteration is tried before going on, but not after an empty one; an empty
iteration beyond the minimum is a failure, as going on after the last full one is tried anyway. -/
def leave (m : Matcher) (t : Thread) (g : Nat) (times : Repetition) : Action :=
  match t.slots[g]?, m.program.groups[g]? with
  | some slot, some span =>
    let isEmpty := slot.start == some t.pos
    let count := slot.count + 1
    let slots := t.slots.setIfInBounds g ⟨count, slot.start, some t.pos⟩
    if times.isOnce then
      .go (.ready { t.next with slots := t.slots.setIfInBounds g { slot with stop := t.pos } })
    else if isEmpty ∧ max times.min 1 ≤ slot.count then .fail
    else if isEmpty ∨ !times.belowMax count then .go (.ready { t.next with slots })
    else
      let again := Config.ready
        ⟨span.start + 1, t.pos, t.slots.setIfInBounds g ⟨count, some t.pos, some t.pos⟩⟩
      if times.min ≤ count then .choose (.retry t.pc (t.pc + 1) slots t.pos [] t.pos) again
      else .go again
  | _, _ => .malformed (.unknownGroup g)

def exec (m : Matcher) (t : Thread) (i : Inst) : Action :=
  match i.atom with
  | .accept =>
    match t.slots[0]? with
    | none => .malformed (.unknownGroup 0)
    | some slot =>
      .stop (some ⟨t.pos, t.slots.setIfInBounds 0 { slot with stop := some t.pos }⟩)
  | .enter g => m.enter t g i.times
  | .leave g => m.leave t g i.times
  | .branch 0 => .go (.ready t.next)
  | .branch _ => .choose (.longest t.pc t.pos t.slots none) (.ready t.next)
  | .join g =>
    match m.program.groups[g]? with
    | none => .malformed (.unknownGroup g)
    | some span => .go (.ready { t with pc := span.stop })
  | .assert what =>
    if m.holds what t.pos then .go (.ready t.next)
    else if what = .lineStart ∧ t.pc = 0 ∧ m.program.flags.anchored then .abort .anchorViolation
    else .fail
  | .consume what =>
    if i.times.isOnce then
      match m.consume what t.pos t.slots with
      | none => .fail
      | some pos => .go (.ready { t.next with pos })
    else continueRepeat t what i.times 0 []

def step (m : Matcher) : Config → Action
  | .ready t =>
    match m.program.insts[t.pc]? with
    | none => .malformed (.outOfProgram t.pc)
    | some i => m.exec t i
  | .repeating t what times count stops => m.repeatOnce t what times count stops

end Matcher

end PosixRegex
