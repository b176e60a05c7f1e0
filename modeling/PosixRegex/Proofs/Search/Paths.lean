import Mathlib.Logic.Relation
import PosixRegex.Proofs.Search.States
import PosixRegex.Proofs.Search.Walk

namespace PosixRegex

open Relation (ReflTransGen)

namespace Matcher

/-- Instructions that lead on without a look at the subject or at the groups. The head of an
alternative leads into it or into any later one. -/
inductive Jumps (m : Matcher) (pc : Nat) : Nat → Prop
  | mark {times : Repetition} (hi : m.program.insts[pc]? = some ⟨.branch 0, times⟩) :
      Jumps m pc (pc + 1)
  | alternative {d marker : Nat} {times : Repetition}
      (hi : m.program.insts[pc]? = some ⟨.branch (d + 1), times⟩)
      (hlater : ReflTransGen (fun a b => m.nextBranch a = .ok (some b)) pc marker) :
      Jumps m pc (marker + 1)
  | join {g : Nat} {times : Repetition} {span : GroupSpan}
      (hi : m.program.insts[pc]? = some ⟨.join g, times⟩)
      (hg : m.program.groups[g]? = some span) : Jumps m pc span.stop

/-- The ways from one instruction to the next one. All repetitions of a consumer are one of them. -/
inductive Moves (m : Matcher) (t : Thread) : Thread → Prop
  | jump {pc : Nat} (h : m.Jumps t.pc pc) : Moves m t { t with pc }
  | assert {what : Assertion} {times : Repetition}
      (hi : m.program.insts[t.pc]? = some ⟨.assert what, times⟩)
      (hw : m.holds what t.pos = true) : Moves m t t.next
  | consume {what : Consumer} {times : Repetition} {next : Nat}
      (hi : m.program.insts[t.pc]? = some ⟨.consume what, times⟩)
      (hr : m.Repeats what times t.slots 0 t.pos next) : Moves m t ⟨t.pc + 1, next, t.slots⟩
  | enter {g : Nat} {times : Repetition}
      (hi : m.program.insts[t.pc]? = some ⟨.enter g, times⟩) :
      Moves m t ⟨t.pc + 1, t.pos, t.slots.enter g t.pos⟩
  | skip {g : Nat} {times : Repetition} {span : GroupSpan}
      (hi : m.program.insts[t.pc]? = some ⟨.enter g, times⟩)
      (hg : m.program.groups[g]? = some span) (hmin : times.min = 0) :
      Moves m t ⟨span.stop + 1, t.pos, t.slots.skip g⟩
  | close {g : Nat} (hi : m.program.insts[t.pc]? = some ⟨.leave g, .once⟩) :
      Moves m t ⟨t.pc + 1, t.pos, t.slots.close g t.pos⟩
  | finish {g : Nat} {times : Repetition} {slot : Slot}
      (hi : m.program.insts[t.pc]? = some ⟨.leave g, times⟩) (ho : times ≠ .once)
      (hs : t.slots[g]? = some slot)
      (hend : slot.start = some t.pos ∧ slot.count < max times.min 1 ∨
        slot.start ≠ some t.pos ∧
          (times.min ≤ slot.count + 1 ∨ times.belowMax (slot.count + 1) = false)) :
      Moves m t ⟨t.pc + 1, t.pos, t.slots.finish g t.pos⟩
  | again {g : Nat} {times : Repetition} {slot : Slot} {span : GroupSpan}
      (hi : m.program.insts[t.pc]? = some ⟨.leave g, times⟩)
      (hs : t.slots[g]? = some slot) (hg : m.program.groups[g]? = some span)
      (hstart : slot.start ≠ some t.pos) (hmax : times.belowMax (slot.count + 1) = true) :
      Moves m t ⟨span.start + 1, t.pos, t.slots.restart g t.pos⟩

def Reaches (m : Matcher) (pos : Nat) : Thread → Prop := ReflTransGen m.Moves (m.startThread pos)

/-- A path that is at the end of the program has arrived there with this outcome. -/
def ArrivesWith (m : Matcher) (t : Thread) (o : Outcome) : Prop :=
  (∃ times, m.program.insts[t.pc]? = some ⟨.accept, times⟩) ∧ o = ⟨t.pos, t.slots.close 0 t.pos⟩

def Arrives (m : Matcher) (pos : Nat) (o : Outcome) : Prop :=
  ∃ t, m.Reaches pos t ∧ m.ArrivesWith t o

/-- A repetition that has started at `first` is at `pos` after `count` times. -/
structure Underway (m : Matcher) (what : Consumer) (times : Repetition) (slots : Slots)
    (first count pos : Nat) : Prop where
  le : first ≤ pos
  isBoundary (h : m.subject.isBoundary first = true) : m.subject.isBoundary pos = true
  completes {next : Nat} (h : m.Repeats what times slots count pos next) :
    m.Repeats what times slots 0 first next

/-- What holds in the middle of a repetition that has started at `first`: each of the stops is one way
to end it. -/
structure Repeating (m : Matcher) (t : Thread) (what : Consumer) (times : Repetition)
    (count : Nat) (stops : List Nat) (first : Nat) : Prop where
  inst : m.program.insts[t.pc]? = some ⟨.consume what, times⟩
  underway : m.Underway what times t.slots first count t.pos
  stops : ∀ stop ∈ stops, m.Repeats what times t.slots 0 first stop

/-- A head that leads to `marker` has been reached. -/
def Branches (m : Matcher) (pos marker here : Nat) (slots : Slots) : Prop :=
  ∃ head d times, m.program.insts[head]? = some ⟨.branch (d + 1), times⟩ ∧
    m.Reaches pos ⟨head, here, slots⟩ ∧
    ReflTransGen (fun a b => m.nextBranch a = .ok (some b)) head marker

def onPaths (m : Matcher) (pos : Nat) : Conditions where
  config
    | .ready t => m.Reaches pos t
    | .repeating t what times count stops => ∃ first, m.Reaches pos { t with pos := first } ∧
        m.Repeating t what times count stops first ∧
        (times.min ≤ count → times.belowMax count = true)
  checkpoint
    | .retry _ resume slots stop earlier _ =>
      ∀ place ∈ stop :: earlier, m.Reaches pos ⟨resume, place, slots⟩
    | .longest marker here slots best => m.Branches pos marker here slots ∧
        ∀ o ∈ best, m.Arrives pos o
  outcome := m.Arrives pos

variable {m : Matcher} {t : Thread} {pos first count : Nat} {what : Consumer} {times : Repetition}
  {stops : List Nat} {slots : Slots} {i : Inst}

theorem Reaches.move {t' : Thread} (h : m.Reaches pos t) (hmove : m.Moves t t') :
    m.Reaches pos t' :=
  ReflTransGen.tail h hmove

theorem Underway.start (m : Matcher) (what : Consumer) (times : Repetition) (slots : Slots)
    (pos : Nat) : m.Underway what times slots pos 0 pos :=
  ⟨Nat.le_refl pos, id, id⟩

theorem Underway.more {next : Nat} (h : m.Underway what times slots first count pos)
    (hc : m.consume what pos slots = some next)
    (hroom : times.min ≤ count → times.belowMax count = true ∧ pos < next) :
    m.Underway what times slots first (count + 1) next where
  le := Nat.le_trans h.le (consume_bounds hc).1
  isBoundary hfirst := isBoundary_of_consume (h.isBoundary hfirst) hc
  completes hnext := by
    by_cases hmin : count < times.min
    · exact h.completes (.need hmin hc hnext)
    · obtain ⟨hmax, hpos⟩ := hroom (Nat.le_of_not_lt hmin)
      exact h.completes (.more (Nat.le_of_not_lt hmin) hmax hc hpos hnext)

section Repetitions

variable (hreach : m.Reaches pos { t with pos := first })

include hreach

theorem meets_endRepeat (h : m.Repeating t what times count stops first)
    (hmin : times.min ≤ count) : (endRepeat t stops).Meets (m.onPaths pos) := by
  have hbehind {place : Nat} (hr : m.Repeats what times t.slots 0 first place) :
      m.Reaches pos ⟨t.pc + 1, place, t.slots⟩ :=
    hreach.move (.consume (t := { t with pos := first }) h.inst hr)
  have hhere := hbehind (h.underway.completes (.stop hmin))
  cases stops with
  | nil => exact hhere
  | cons stop earlier => exact ⟨fun place hplace => hbehind (h.stops place hplace), hhere⟩

theorem meets_continueRepeat (h : m.Repeating t what times count stops first) :
    (continueRepeat t what times count stops).Meets (m.onPaths pos) := by
  unfold continueRepeat
  split
  · rename_i hfull
    exact meets_endRepeat hreach h hfull.1
  · rename_i hroom
    exact ⟨first, hreach, h, fun hmin => by simpa [hmin] using hroom⟩

theorem meets_repeatOnce (h : m.Repeating t what times count stops first)
    (hroom : times.min ≤ count → times.belowMax count = true) :
    (m.repeatOnce t what times count stops).Meets (m.onPaths pos) := by
  unfold repeatOnce
  split
  · rename_i next hc
    split
    · rename_i hmin
      have hmore := h.underway.more hc fun h => absurd hmin (Nat.not_lt.mpr h)
      exact meets_continueRepeat (t := { t with pos := next }) hreach
        ⟨h.inst, hmore, fun _ hstop => absurd hstop List.not_mem_nil⟩
    · rename_i hmin
      have hmin := Nat.le_of_not_lt hmin
      split
      · rename_i hpos
        have hmore := h.underway.more hc fun _ => ⟨hroom hmin, hpos⟩
        have hhere := h.underway.completes (.stop hmin)
        exact meets_continueRepeat (t := { t with pos := next }) hreach
          ⟨h.inst, hmore, List.forall_mem_cons.mpr ⟨hhere, h.stops⟩⟩
      · exact meets_endRepeat hreach h hmin
  · split
    · exact Action.meets_fail _
    · rename_i hmin
      exact meets_endRepeat hreach h (Nat.le_of_not_lt hmin)

end Repetitions

section Instructions

variable (h : m.Reaches pos t)

include h

theorem meets_enter {g : Nat} (hi : m.program.insts[t.pc]? = some ⟨.enter g, times⟩) :
    (m.enter t g times).Meets (m.onPaths pos) := by
  unfold enter
  split
  · rename_i slot span hs hg
    have hentered := h.move (.enter hi)
    rw [Slots.enter, ← Slots.setIfInBounds_eq_modify hs] at hentered
    simp only
    split
    · rename_i hmin
      have hskipped := h.move (.skip hi hg hmin)
      rw [Slots.skip, ← Slots.setIfInBounds_eq_modify hs] at hskipped
      refine ⟨fun place hplace => ?_, hentered⟩
      obtain rfl := List.mem_singleton.mp hplace
      exact hskipped
    · exact hentered
  · trivial

theorem meets_leave {g : Nat} (hi : m.program.insts[t.pc]? = some ⟨.leave g, times⟩) :
    (m.leave t g times).Meets (m.onPaths pos) := by
  unfold leave
  split
  · rename_i slot span hs hg
    have hset := Slots.setIfInBounds_eq_modify hs
    simp only
    split
    · rename_i honce
      obtain rfl : times = .once := by simpa [Repetition.isOnce] using honce
      have hclosed := h.move (.close hi)
      rw [Slots.close, ← hset] at hclosed
      exact hclosed
    · rename_i honce
      have ho : times ≠ .once := by simpa [Repetition.isOnce] using honce
      have hfinish (hend) := h.move (.finish hi ho hs hend)
      rw [Slots.finish, ← hset] at hfinish
      split
      · exact Action.meets_fail _
      · rename_i hmore
        split
        · rename_i hstop
          refine hfinish ?_
          by_cases hempty : slot.start = some t.pos
          · refine .inl ⟨hempty, ?_⟩
            simp only [hempty, beq_self_eq_true, true_and] at hmore
            omega
          · refine .inr ⟨hempty, .inr ?_⟩
            simpa [hempty] using hstop
        · rename_i hagain
          obtain ⟨hempty, hmax⟩ : slot.start ≠ some t.pos ∧ times.belowMax (slot.count + 1) = true := by
            simpa using hagain
          have hrestarted := h.move (.again hi hs hg hempty hmax)
          rw [Slots.restart, ← hset] at hrestarted
          split
          · rename_i hmin
            refine ⟨fun place hplace => ?_, hrestarted⟩
            obtain rfl := List.mem_singleton.mp hplace
            exact hfinish (.inr ⟨hempty, .inl hmin⟩)
          · exact hrestarted
  · trivial

theorem meets_exec (hi : m.program.insts[t.pc]? = some i) :
    (m.exec t i).Meets (m.onPaths pos) := by
  obtain ⟨atom, times⟩ := i
  cases atom with
  | accept =>
    simp only [exec]
    split
    · trivial
    · rename_i slot hs
      rintro o ho
      obtain rfl := Option.some.inj ho
      refine ⟨t, h, ⟨times, hi⟩, ?_⟩
      rw [Slots.close, ← Slots.setIfInBounds_eq_modify hs]
  | enter g => exact meets_enter h hi
  | leave g => exact meets_leave h hi
  | branch next =>
    cases next with
    | zero => exact h.move (.jump (.mark hi))
    | succ d =>
      refine ⟨⟨⟨t.pc, d, times, hi, h, .refl⟩, fun _ ho => absurd ho (Option.not_mem_none _)⟩, ?_⟩
      exact h.move (.jump (.alternative hi .refl))
  | join g =>
    simp only [exec]
    split
    · trivial
    · rename_i span hg
      exact h.move (.jump (.join hi hg))
  | assert what =>
    simp only [exec]
    split
    · rename_i hw
      exact h.move (.assert hi hw)
    · split
      · trivial
      · exact Action.meets_fail _
  | consume what =>
    simp only [exec]
    split
    · rename_i honce
      obtain rfl : times = .once := by simpa [Repetition.isOnce] using honce
      split
      · exact Action.meets_fail _
      · rename_i next hc
        exact h.move (.consume hi (repeats_once.mpr hc))
    · exact meets_continueRepeat h
        ⟨hi, .start m what times t.slots t.pos, fun _ hstop => absurd hstop List.not_mem_nil⟩

end Instructions

theorem arrives_further {best result : Option Outcome} (hbest : ∀ o ∈ best, m.Arrives pos o)
    (hresult : ∀ o ∈ result, m.Arrives pos o) : ∀ o ∈ Outcome.further best result, m.Arrives pos o := by
  cases result with
  | none => exact hbest
  | some found =>
    have hfound := hresult found rfl
    rintro o ⟨⟩
    cases best with
    | none => exact hfound
    | some b =>
      simp only [Outcome.better]
      split
      · exact hfound
      · exact hbest b rfl

theorem meets_settle_longest {marker here : Nat} {best result : Option Outcome}
    (hbranches : m.Branches pos marker here slots) (hbest : ∀ o ∈ best, m.Arrives pos o)
    (hresult : ∀ o ∈ result, m.Arrives pos o) :
    (m.settle result (.longest marker here slots best)).Meets (m.onPaths pos) := by
  have hbetter := arrives_further hbest hresult
  simp only [settle]
  split
  · exact hbetter
  · split
    · trivial
    · exact hbetter
    · rename_i following hnext
      obtain ⟨head, d, times, hi, hreach, hlater⟩ := hbranches
      have hlater := hlater.tail hnext
      refine ⟨hreach.move (.jump (.alternative hi hlater)), ?_⟩
      rintro k ⟨⟩
      exact ⟨⟨head, d, times, hi, hreach, hlater⟩, hbetter⟩

theorem maintains_onPaths (m : Matcher) (pos : Nat) : m.Maintains (m.onPaths pos) where
  step {c} hc := by
    cases c with
    | ready t =>
      simp only [step]
      split
      · trivial
      · rename_i i hi
        exact meets_exec hc hi
    | repeating t what times count stops =>
      obtain ⟨first, hreach, hrepeating, hroom⟩ := hc
      exact meets_repeatOnce hreach hrepeating hroom
  settle {k result} hk hresult := by
    cases k with
    | retry pc resume slots stop earlier last =>
      cases result with
      | some o => exact hresult
      | none =>
        obtain ⟨hstop, hearlier⟩ := List.forall_mem_cons.mp hk
        refine ⟨hstop, fun k hagain => ?_⟩
        cases earlier with
        | nil => cases hagain
        | cons next others =>
          cases hagain
          exact hearlier
    | longest marker here slots best => exact meets_settle_longest hk.1 hk.2 hresult

end Matcher

end PosixRegex
