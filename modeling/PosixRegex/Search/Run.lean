import PosixRegex.Search.Step

namespace PosixRegex

structure SearchLimits where
  fuel : Nat := 1000000
  recursion : Nat := 100000
  deriving DecidableEq, Repr

/-- What is left to do after a path has ended. -/
inductive Unwound
  | finished (result : Option Outcome)
  | resume (t : Thread) (stack : Stack)
  | abort (why : Abort)

structure Ended where
  result : Except Abort (Option Outcome)
  fuel : Nat

namespace Matcher

/-- Ask the checkpoints, latest first, until one has a path to run. Putting back a checkpoint that
has just been taken is not subject to the limit. -/
def unwind (m : Matcher) :
    (items : List Checkpoint) → (size : Nat) → size = items.length → Option Outcome → Unwound
  | [], _, _, result => .finished result
  | k :: items, size, h, result =>
    have h' : size - 1 = items.length := by simp [h]
    match m.settle result k with
    | .answer result => m.unwind items (size - 1) h' result
    | .resume t none => .resume t ⟨items, size - 1, h'⟩
    | .resume t (some k) => .resume t ⟨k :: items, size, h⟩
    | .abort why => .abort why

/-- Run to the end of the search, with `fuel` steps at most. -/
def run (m : Matcher) (limits : SearchLimits) : (fuel : Nat) → Config → Stack → Ended
  | 0, _, _ => ⟨.error (.error (.fuelExhausted limits.fuel)), 0⟩
  | fuel + 1, c, stack =>
    match m.step c with
    | .go c => m.run limits fuel c stack
    | .choose k c =>
      if limits.recursion ≤ stack.size then
        ⟨.error (.error (.recursionLimit limits.recursion)), fuel⟩
      else m.run limits fuel c (stack.push k)
    | .abort why => ⟨.error why, fuel⟩
    | .stop result =>
      match m.unwind stack.items stack.size stack.size_eq result with
      | .finished result => ⟨.ok result, fuel⟩
      | .resume t stack => m.run limits fuel (.ready t) stack
      | .abort why => ⟨.error why, fuel⟩

/-- The slots at the start of a search: only the start of the whole match is known. -/
def startSlots (m : Matcher) (pos : Nat) : Slots :=
  (Array.replicate m.program.groups.size {}).modify 0 fun slot => { slot with start := some pos }

def startThread (m : Matcher) (pos : Nat) : Thread := ⟨0, pos, m.startSlots pos⟩

def search (m : Matcher) (limits : SearchLimits) (fuel pos : Nat) : Ended :=
  m.run limits fuel (.ready (m.startThread pos)) .empty

/-- Whether a match can start at `pos`, as far as the first bytes tell. -/
def admits (m : Matcher) (pos : Nat) : Bool :=
  if pos = m.subject.size then m.program.firstBytes.isFull
  else (m.subject.charAt? pos).any (fun c => m.program.firstBytes.contains (leadByte c))

def captureLimit (m : Matcher) (limit : Nat) : Nat :=
  if m.program.flags.noCapture then 1 else limit

/-- Search at `count` positions from `pos` on, with one budget of fuel for all of them. -/
def scan (m : Matcher) (limits : SearchLimits) (capture : Nat) :
    (count pos fuel : Nat) → Except SearchError (Option Captures)
  | 0, _, _ => .ok none
  | count + 1, pos, fuel =>
    if m.admits pos then
      let ended := m.search limits fuel pos
      match ended.result with
      | .ok (some o) => .ok (some (.ofSlots o.slots (m.captureLimit capture)))
      | .ok none => m.scan limits capture count (pos + 1) ended.fuel
      | .error .anchorViolation => .ok none
      | .error (.error e) => .error e
    else m.scan limits capture count (pos + 1) fuel

/-- The leftmost longest match that starts at or after `start`, with at most `capture` spans. -/
def execute (m : Matcher) (limits : SearchLimits) (start capture : Nat) :
    Except SearchError (Option Captures) :=
  m.scan limits capture (m.subject.size + 1 - start) start limits.fuel

end Matcher

end PosixRegex
