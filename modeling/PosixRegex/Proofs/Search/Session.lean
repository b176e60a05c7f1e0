import PosixRegex.Search.Run

namespace PosixRegex

namespace Matcher

/-- The checkpoints that are left after a path has ended with `result` and no other path runs. -/
def unwindPending (m : Matcher) : List Checkpoint → Option Outcome → List Checkpoint
  | [], _ => []
  | k :: items, result =>
    match m.settle result k with
    | .answer result => m.unwindPending items result
    | _ => items

def runPending (m : Matcher) (limits : SearchLimits) :
    (fuel : Nat) → Config → Stack → List Checkpoint
  | 0, _, stack => stack.items
  | fuel + 1, c, stack =>
    match m.step c with
    | .go c => m.runPending limits fuel c stack
    | .choose k c =>
      if limits.recursion ≤ stack.size then stack.items
      else m.runPending limits fuel c (stack.push k)
    | .abort _ => stack.items
    | .stop result =>
      match m.unwind stack.items stack.size stack.size_eq result with
      | .resume t stack => m.runPending limits fuel (.ready t) stack
      | _ => m.unwindPending stack.items result

end Matcher

/-- A matcher in use, with what its last call has left behind. -/
structure Session where
  matcher : Matcher
  limits : SearchLimits
  fuel : Nat
  pending : List Checkpoint

namespace Session

/-- A session that has not served any call. -/
def fresh (m : Matcher) (limits : SearchLimits) : Session := ⟨m, limits, limits.fuel, []⟩

/-- Search for a match that starts at `pos`, with the fuel that is left. Checkpoints that are left
are dropped. -/
def search (s : Session) (pos : Nat) : Except Abort (Option Outcome) × Session :=
  let s := { s with pending := [] }
  let begin := Config.ready (s.matcher.startThread pos)
  let stack : Stack := ⟨s.pending, s.pending.length, rfl⟩
  let ended := s.matcher.run s.limits s.fuel begin stack
  (ended.result, { s with
    fuel := ended.fuel
    pending := s.matcher.runPending s.limits s.fuel begin stack })

def scan (capture : Nat) :
    (count pos : Nat) → Session → Except SearchError (Option Captures) × Session
  | 0, _, s => (.ok none, s)
  | count + 1, pos, s =>
    if s.matcher.admits pos then
      match s.search pos with
      | (.ok (some o), s) => (.ok (some (.ofSlots o.slots (s.matcher.captureLimit capture))), s)
      | (.ok none, s) => scan capture count (pos + 1) s
      | (.error .anchorViolation, s) => (.ok none, s)
      | (.error (.error e), s) => (.error e, s)
    else scan capture count (pos + 1) s

/-- Serve a call: the fuel is filled up, and the scan starts. -/
def execute (s : Session) (start capture : Nat) :
    Except SearchError (Option Captures) × Session :=
  { s with fuel := s.limits.fuel }.scan capture (s.matcher.subject.size + 1 - start) start

/-- The session after a number of calls, each with its start and its number of spans. -/
def after (s : Session) (calls : List (Nat × Nat)) : Session :=
  calls.foldl (fun s call => (s.execute call.1 call.2).2) s

variable {s : Session} {capture count pos start : Nat}

theorem search_eq (s : Session) (pos : Nat) : ∃ pending,
    s.search pos = ((s.matcher.search s.limits s.fuel pos).result,
      ⟨s.matcher, s.limits, (s.matcher.search s.limits s.fuel pos).fuel, pending⟩) :=
  ⟨_, rfl⟩

theorem scan_eq (capture : Nat) (count pos : Nat) (s : Session) :
    (scan capture count pos s).1 = s.matcher.scan s.limits capture count pos s.fuel ∧
      (scan capture count pos s).2.matcher = s.matcher ∧
      (scan capture count pos s).2.limits = s.limits := by
  induction count generalizing pos s with
  | zero => exact ⟨rfl, rfl, rfl⟩
  | succ count ih =>
    unfold scan Matcher.scan
    by_cases ha : s.matcher.admits pos = true
    · obtain ⟨pending, hsearch⟩ := search_eq s pos
      rw [if_pos ha, if_pos ha, hsearch]
      cases hresult : (s.matcher.search s.limits s.fuel pos).result with
      | ok result =>
        simp only [hresult]
        cases result with
        | none => exact ih (pos + 1) _
        | some o => exact ⟨rfl, rfl, rfl⟩
      | error why =>
        simp only [hresult]
        cases why with
        | anchorViolation => exact ⟨rfl, rfl, rfl⟩
        | error e => exact ⟨rfl, rfl, rfl⟩
    · rw [if_neg ha, if_neg ha]
      exact ih (pos + 1) s

theorem execute_eq (s : Session) (start capture : Nat) :
    (s.execute start capture).1 = s.matcher.execute s.limits start capture :=
  (scan_eq capture _ start _).1

theorem after_eq (s : Session) (calls : List (Nat × Nat)) :
    (s.after calls).matcher = s.matcher ∧ (s.after calls).limits = s.limits := by
  induction calls generalizing s with
  | nil => exact ⟨rfl, rfl⟩
  | cons call calls ih =>
    obtain ⟨-, hmatcher, hlimits⟩ := scan_eq call.2 (s.matcher.subject.size + 1 - call.1) call.1
      { s with fuel := s.limits.fuel }
    obtain ⟨hm, hl⟩ := ih (s.execute call.1 call.2).2
    exact ⟨hm.trans hmatcher, hl.trans hlimits⟩

end Session

end PosixRegex
