import PosixRegex.Search.Error
import PosixRegex.Search.Matcher

namespace PosixRegex

structure Outcome where
  stop : Nat
  slots : Slots
  deriving DecidableEq

structure Thread where
  pc : Nat
  pos : Nat
  slots : Slots
  deriving DecidableEq

inductive Abort
  /-- A leading `^` failed, so that no later position can succeed. -/
  | anchorViolation
  | error (e : SearchError)
  deriving DecidableEq

inductive Checkpoint
  /-- An ordered choice made at `pc`. When the running path fails, `resume` is run from `stop` and
  then from the places in `earlier`; a success is final. `last` is where the running path
  started. -/
  | retry (pc resume : Nat) (slots : Slots) (stop : Nat) (earlier : List Nat) (last : Nat)
  /-- An alternative headed at `marker` is running. Every alternative runs to the end of the
  program and the one that ends furthest wins; on a tie the earlier one stays. -/
  | longest (marker pos : Nat) (slots : Slots) (best : Option Outcome)
  deriving DecidableEq

inductive Verdict
  /-- The result for the checkpoint below. -/
  | answer (result : Option Outcome)
  /-- Run another path, with a checkpoint for what is still to be tried. -/
  | resume (t : Thread) (again : Option Checkpoint)
  | abort (why : Abort)

/-- The better of two outcomes: the one that ends further, the first one on a tie. -/
def Outcome.better (best : Option Outcome) (o : Outcome) : Outcome :=
  match best with
  | none => o
  | some b => if b.stop < o.stop then o else b

namespace Matcher

def headDistance (m : Matcher) (pc : Nat) : Except SearchError Nat :=
  match m.program.insts[pc]? with
  | some ⟨.branch next, _⟩ => .ok next
  | _ => .error (.malformed (.missingHead pc))

/-- The head of the alternative after the one at `marker`, unless that one is the last. -/
def nextBranch (m : Matcher) (marker : Nat) : Except SearchError (Option Nat) := do
  let following := marker + (← m.headDistance marker)
  return if (← m.headDistance following) = 0 then none else some following

/-- Ask a checkpoint after a path has ended with `result`. An alternative that has reached the end
of the subject cannot be surpassed. -/
def settle (m : Matcher) (result : Option Outcome) : Checkpoint → Verdict
  | .retry pc resume slots stop earlier _ =>
    match result with
    | some o => .answer (some o)
    | none =>
      .resume ⟨resume, stop, slots⟩ <|
        match earlier with
        | [] => none
        | next :: others => some (.retry pc resume slots next others stop)
  | .longest marker pos slots best =>
    let best := match result with
      | some o => some (o.better best)
      | none => best
    if result.any (·.stop == m.subject.size) then .answer best
    else
      match m.nextBranch marker with
      | .error e => .abort (.error e)
      | .ok none => .answer best
      | .ok (some marker) =>
        .resume ⟨marker + 1, pos, slots⟩ (some (.longest marker pos slots best))

end Matcher

/-- Pending checkpoints, latest first, with their number. -/
structure Stack where
  items : List Checkpoint
  size : Nat
  size_eq : size = items.length

namespace Stack

def empty : Stack := ⟨[], 0, rfl⟩

def push (s : Stack) (k : Checkpoint) : Stack :=
  ⟨k :: s.items, s.size + 1, by simp [s.size_eq]⟩

end Stack

end PosixRegex
