import PosixRegex.Proofs.Settling
import PosixRegex.Search.Run

namespace PosixRegex

namespace Slots

def enter (slots : Slots) (g pos : Nat) : Slots :=
  slots.modify g fun slot => ⟨0, some pos, slot.stop⟩

def skip (slots : Slots) (g : Nat) : Slots :=
  slots.modify g fun slot => ⟨slot.count, none, none⟩

def close (slots : Slots) (g pos : Nat) : Slots :=
  slots.modify g fun slot => { slot with stop := some pos }

def finish (slots : Slots) (g pos : Nat) : Slots :=
  slots.modify g fun slot => ⟨slot.count + 1, slot.start, some pos⟩

def restart (slots : Slots) (g pos : Nat) : Slots :=
  slots.modify g fun slot => ⟨slot.count + 1, some pos, some pos⟩

theorem setIfInBounds_eq_modify {slots : Slots} {g : Nat} {slot : Slot} (h : slots[g]? = some slot)
    (f : Slot → Slot) : slots.setIfInBounds g (f slot) = slots.modify g f := by
  apply Array.ext_getElem?
  intro i
  by_cases hi : g = i
  · subst hi
    obtain ⟨hlt, hs⟩ := Array.getElem?_eq_some_iff.mp h
    simp [hlt, hs, Array.getElem_modify]
  · simp [Array.getElem?_setIfInBounds_ne, Array.getElem?_modify, hi]

end Slots

/-- The better one of two results of alternatives: a later result has to end further. -/
def Outcome.further (best result : Option Outcome) : Option Outcome :=
  match result with
  | some o => some (o.better best)
  | none => best

/-- The recursion runs threads to the end of the program, repeats consumers, and runs the alternatives
from a marker on. -/
structure Plays where
  thread : Thread → Option (Option Outcome)
  counts : Thread → Consumer → Repetition → Nat → Option (Option Outcome)
  branches : Nat → Nat → Slots → Option Outcome → Option (Option Outcome)

structure Plays.Settle (f : Nat → Plays) (limit : Plays) : Prop where
  thread (t : Thread) : Settles (fun n => (f n).thread t) (limit.thread t)
  counts (t : Thread) (what : Consumer) (times : Repetition) (count : Nat) :
    Settles (fun n => (f n).counts t what times count) (limit.counts t what times count)
  branches (marker pos : Nat) (slots : Slots) (best : Option Outcome) :
    Settles (fun n => (f n).branches marker pos slots best) (limit.branches marker pos slots best)

def Plays.pair (first later : Plays) : Nat → Plays
  | 0 => first
  | _ + 1 => later

namespace Matcher

/-- Run a thread, where `self` makes the recursive calls. -/
def playThread (m : Matcher) (self : Plays) (t : Thread) : Option (Option Outcome) := do
  let i ← m.program.insts[t.pc]?
  match i.atom with
  | .accept =>
    let _ ← t.slots[0]?
    return some ⟨t.pos, t.slots.close 0 t.pos⟩
  | .enter g =>
    let _ ← t.slots[g]?
    let span ← m.program.groups[g]?
    match ← self.thread ⟨t.pc + 1, t.pos, t.slots.enter g t.pos⟩ with
    | some o => return some o
    | none =>
      if i.times.min = 0 then self.thread ⟨span.stop + 1, t.pos, t.slots.skip g⟩
      else return none
  | .leave g =>
    let slot ← t.slots[g]?
    let span ← m.program.groups[g]?
    if i.times.isOnce then self.thread ⟨t.pc + 1, t.pos, t.slots.close g t.pos⟩
    else if slot.start = some t.pos then
      if max i.times.min 1 ≤ slot.count then return none
      else self.thread ⟨t.pc + 1, t.pos, t.slots.finish g t.pos⟩
    else if i.times.belowMax (slot.count + 1) then
      match ← self.thread ⟨span.start + 1, t.pos, t.slots.restart g t.pos⟩ with
      | some o => return some o
      | none =>
        if i.times.min ≤ slot.count + 1 then self.thread ⟨t.pc + 1, t.pos, t.slots.finish g t.pos⟩
        else return none
    else self.thread ⟨t.pc + 1, t.pos, t.slots.finish g t.pos⟩
  | .branch 0 => self.thread t.next
  | .branch _ => self.branches t.pc t.pos t.slots none
  | .join g =>
    let span ← m.program.groups[g]?
    self.thread { t with pc := span.stop }
  | .assert what => if m.holds what t.pos then self.thread t.next else return none
  | .consume what => self.counts t what i.times 0

/-- Repeat a consumer after `count` repetitions, as often as it goes and then less often. -/
def playRepeated (m : Matcher) (self : Plays) (t : Thread) (what : Consumer) (times : Repetition)
    (count : Nat) : Option (Option Outcome) :=
  match m.consume what t.pos t.slots with
  | none => if count < times.min then return none else self.thread t.next
  | some pos =>
    if count < times.min then self.counts { t with pos } what times (count + 1)
    else if times.belowMax count ∧ t.pos < pos then do
      match ← self.counts { t with pos } what times (count + 1) with
      | some o => return some o
      | none => self.thread t.next
    else self.thread t.next

/-- Run every alternative from the one headed at `marker` on, and keep the first one of those that
end furthest. -/
def playAlternatives (m : Matcher) (self : Plays) (marker pos : Nat) (slots : Slots)
    (best : Option Outcome) : Option (Option Outcome) := do
  let best := Outcome.further best (← self.thread ⟨marker + 1, pos, slots⟩)
  match m.nextBranch marker with
  | .error _ => none
  | .ok none => return best
  | .ok (some following) => self.branches following pos slots best

def nextPlays (m : Matcher) (self : Plays) : Plays :=
  ⟨m.playThread self, m.playRepeated self, m.playAlternatives self⟩

/-- What comes of recursive calls that are nested less than `depth` times. -/
def playsWithin (m : Matcher) : (depth : Nat) → Plays
  | 0 => ⟨fun _ => none, fun _ _ _ _ => none, fun _ _ _ _ => none⟩
  | depth + 1 => m.nextPlays (m.playsWithin depth)

/-- Run a thread to the end of the program. There is no result if the run does not end or leaves
the program. -/
noncomputable def play (m : Matcher) (t : Thread) : Option (Option Outcome) :=
  settled fun depth => (m.playsWithin depth).thread t

/-- Repeat a consumer after `count` repetitions and run what follows. -/
noncomputable def playCounts (m : Matcher) (t : Thread) (what : Consumer) (times : Repetition)
    (count : Nat) : Option (Option Outcome) :=
  settled fun depth => (m.playsWithin depth).counts t what times count

/-- Run every alternative from the one headed at `marker` on. -/
noncomputable def playBranches (m : Matcher) (marker pos : Nat) (slots : Slots)
    (best : Option Outcome) : Option (Option Outcome) :=
  settled fun depth => (m.playsWithin depth).branches marker pos slots best

noncomputable def plays (m : Matcher) : Plays := ⟨m.play, m.playCounts, m.playBranches⟩

section

variable {m : Matcher} {f : Nat → Plays} {limit : Plays}

theorem settles_orElse {f g : Nat → Option (Option Outcome)} {a b : Option (Option Outcome)}
    (hf : Settles f a) (hg : Settles g b) :
    Settles
      (fun n => (f n).bind fun
        | some o => some (some o)
        | none => g n)
      (a.bind fun
        | some o => some (some o)
        | none => b) := by
  refine hf.bind (g := fun x n => match x with | some o => some (some o) | none => g n) ?_
  intro x
  cases x with
  | none => exact hg
  | some o => exact .const _

theorem settles_playThread (h : Plays.Settle f limit) (t : Thread) :
    Settles (fun n => m.playThread (f n) t) (m.playThread limit t) := by
  unfold playThread
  refine .bind (.const _) fun i => ?_
  cases i.atom with
  | accept => exact .const _
  | enter g =>
    refine .bind (.const _) fun slot => .bind (.const _) fun span => ?_
    exact settles_orElse (h.thread _) (.ite (h.thread _) (.const _))
  | leave g =>
    refine .bind (.const _) fun slot => .bind (.const _) fun span => ?_
    refine .ite (h.thread _) (.ite (.ite (.const _) (h.thread _)) (.ite ?_ (h.thread _)))
    exact settles_orElse (h.thread _) (.ite (h.thread _) (.const _))
  | branch next =>
    cases next with
    | zero => exact h.thread _
    | succ next => exact h.branches _ _ _ _
  | join g => exact .bind (.const _) fun span => h.thread _
  | assert what => exact .ite (h.thread _) (.const _)
  | consume what => exact h.counts _ _ _ _

theorem settles_playRepeated (h : Plays.Settle f limit) (t : Thread) (what : Consumer)
    (times : Repetition) (count : Nat) :
    Settles (fun n => m.playRepeated (f n) t what times count)
      (m.playRepeated limit t what times count) := by
  unfold playRepeated
  cases m.consume what t.pos t.slots with
  | none => exact .ite (.const _) (h.thread _)
  | some pos =>
    refine .ite (h.counts _ _ _ _) (.ite ?_ (h.thread _))
    exact settles_orElse (h.counts _ _ _ _) (h.thread _)

theorem settles_playAlternatives (h : Plays.Settle f limit) (marker pos : Nat) (slots : Slots)
    (best : Option Outcome) :
    Settles (fun n => m.playAlternatives (f n) marker pos slots best)
      (m.playAlternatives limit marker pos slots best) := by
  unfold playAlternatives
  refine .bind (h.thread _) fun result => ?_
  cases m.nextBranch marker with
  | error e => exact .const _
  | ok following =>
    cases following with
    | none => exact .const _
    | some following => exact h.branches _ _ _ _

theorem settle_nextPlays (h : Plays.Settle f limit) :
    Plays.Settle (fun n => m.nextPlays (f n)) (m.nextPlays limit) :=
  ⟨settles_playThread h, settles_playRepeated h, settles_playAlternatives h⟩

theorem settle_pair (m : Matcher) (depth : Nat) :
    Plays.Settle (.pair (m.playsWithin depth) (m.playsWithin (depth + 1)))
      (m.playsWithin (depth + 1)) := by
  induction depth with
  | zero =>
    constructor
    · exact fun t => .of_le_one (by rintro x ⟨⟩) fun _ => rfl
    · exact fun t what times count => .of_le_one (by rintro x ⟨⟩) fun _ => rfl
    · exact fun marker pos slots best => .of_le_one (by rintro x ⟨⟩) fun _ => rfl
  | succ depth ih =>
    have hpair : (fun n => m.nextPlays (.pair (m.playsWithin depth) (m.playsWithin (depth + 1)) n)) =
        .pair (m.playsWithin (depth + 1)) (m.playsWithin (depth + 2)) := by
      funext n
      cases n <;> rfl
    exact hpair ▸ settle_nextPlays ih

theorem settle_plays (m : Matcher) : Plays.Settle m.playsWithin m.plays where
  thread t := .settled fun depth _ => ((m.settle_pair depth).thread t).stays (n := 0)
  counts t what times count :=
    .settled fun depth _ => ((m.settle_pair depth).counts t what times count).stays (n := 0)
  branches marker pos slots best :=
    .settled fun depth _ => ((m.settle_pair depth).branches marker pos slots best).stays (n := 0)

@[simp] theorem plays_thread (m : Matcher) (t : Thread) : m.plays.thread t = m.play t := rfl

theorem play_eq (m : Matcher) (t : Thread) : m.play t = m.playThread m.plays t :=
  (m.settle_plays.thread t).unique (.of_succ rfl ((settle_nextPlays m.settle_plays).thread t))

theorem playCounts_eq_playRepeated (m : Matcher) (t : Thread) (what : Consumer)
    (times : Repetition) (count : Nat) :
    m.playCounts t what times count = m.playRepeated m.plays t what times count :=
  (m.settle_plays.counts t what times count).unique
    (.of_succ rfl ((settle_nextPlays m.settle_plays).counts t what times count))

theorem playBranches_eq_playAlternatives (m : Matcher) (marker pos : Nat) (slots : Slots)
    (best : Option Outcome) :
    m.playBranches marker pos slots best = m.playAlternatives m.plays marker pos slots best :=
  (m.settle_plays.branches marker pos slots best).unique
    (.of_succ rfl ((settle_nextPlays m.settle_plays).branches marker pos slots best))

end

/-- What one call preserves if its recursive calls do holds of every result. -/
theorem plays_induction {m : Matcher} {P : Thread → Option Outcome → Prop}
    {Q : Thread → Consumer → Repetition → Nat → Option Outcome → Prop}
    {R : Nat → Nat → Slots → Option Outcome → Option Outcome → Prop}
    (hnext : ∀ self : Plays, (∀ t r, self.thread t = some r → P t r) →
      (∀ t what times count r, self.counts t what times count = some r → Q t what times count r) →
      (∀ marker pos slots best r, self.branches marker pos slots best = some r →
        R marker pos slots best r) →
      (∀ t r, m.playThread self t = some r → P t r) ∧
      (∀ t what times count r, m.playRepeated self t what times count = some r →
        Q t what times count r) ∧
      (∀ marker pos slots best r, m.playAlternatives self marker pos slots best = some r →
        R marker pos slots best r)) :
    (∀ t r, m.play t = some r → P t r) ∧
    (∀ t what times count r, m.playCounts t what times count = some r → Q t what times count r) ∧
    (∀ marker pos slots best r, m.playBranches marker pos slots best = some r →
      R marker pos slots best r) := by
  have hwithin : ∀ depth, (∀ t r, (m.playsWithin depth).thread t = some r → P t r) ∧
      (∀ t what times count r, (m.playsWithin depth).counts t what times count = some r →
        Q t what times count r) ∧
      (∀ marker pos slots best r, (m.playsWithin depth).branches marker pos slots best = some r →
        R marker pos slots best r) := by
    intro depth
    induction depth with
    | zero =>
      refine ⟨?_, ?_, ?_⟩
      · rintro t r ⟨⟩
      · rintro t what times count r ⟨⟩
      · rintro marker pos slots best r ⟨⟩
    | succ depth ih => exact hnext _ ih.1 ih.2.1 ih.2.2
  refine ⟨?_, ?_, ?_⟩
  · intro t r h
    obtain ⟨depth, hr⟩ := ((m.settle_plays.thread t).eq_some_iff r).mp h
    exact (hwithin depth).1 t r hr
  · intro t what times count r h
    obtain ⟨depth, hr⟩ := ((m.settle_plays.counts t what times count).eq_some_iff r).mp h
    exact (hwithin depth).2.1 t what times count r hr
  · intro marker pos slots best r h
    obtain ⟨depth, hr⟩ := ((m.settle_plays.branches marker pos slots best).eq_some_iff r).mp h
    exact (hwithin depth).2.2 marker pos slots best r hr

def firstOf (a b : Option (Option Outcome)) : Option (Option Outcome) :=
  a.bind fun
    | some o => some (some o)
    | none => b

@[simp] theorem firstOf_some_some (o : Outcome) (b : Option (Option Outcome)) :
    firstOf (some (some o)) b = some (some o) := rfl

@[simp] theorem firstOf_some_none (b : Option (Option Outcome)) : firstOf (some none) b = b := rfl

@[simp] theorem firstOf_none (b : Option (Option Outcome)) : firstOf none b = none := rfl

@[simp] theorem firstOf_fail (a : Option (Option Outcome)) : firstOf a (some none) = a := by
  rcases a with _ | _ | o <;> rfl

theorem firstOf_assoc (a b c : Option (Option Outcome)) :
    firstOf (firstOf a b) c = firstOf a (firstOf b c) := by
  rcases a with _ | _ | o <;> rfl

variable {m : Matcher} {t : Thread} {times : Repetition} {g : Nat} {slot : Slot} {span : GroupSpan}

theorem play_accept (hi : m.program.insts[t.pc]? = some ⟨.accept, times⟩)
    (hs : t.slots[0]? = some slot) : m.play t = some (some ⟨t.pos, t.slots.close 0 t.pos⟩) := by
  rw [play_eq, playThread, hi]
  simp [hs]

theorem play_enter (hi : m.program.insts[t.pc]? = some ⟨.enter g, times⟩)
    (hs : t.slots[g]? = some slot) (hg : m.program.groups[g]? = some span) :
    m.play t = firstOf (m.play ⟨t.pc + 1, t.pos, t.slots.enter g t.pos⟩)
      (if times.min = 0 then m.play ⟨span.stop + 1, t.pos, t.slots.skip g⟩ else some none) := by
  rw [play_eq, playThread, hi]
  simp only [hs, hg, Option.bind_eq_bind, Option.bind_some, firstOf]
  rfl

theorem play_leave_once (hi : m.program.insts[t.pc]? = some ⟨.leave g, .once⟩)
    (hs : t.slots[g]? = some slot) (hg : m.program.groups[g]? = some span) :
    m.play t = m.play ⟨t.pc + 1, t.pos, t.slots.close g t.pos⟩ := by
  rw [play_eq, playThread, hi]
  simp [hs, hg, Repetition.isOnce]

theorem play_leave (hi : m.program.insts[t.pc]? = some ⟨.leave g, times⟩) (ho : times ≠ .once)
    (hs : t.slots[g]? = some slot) (hg : m.program.groups[g]? = some span) :
    m.play t =
      if slot.start = some t.pos then
        if max times.min 1 ≤ slot.count then some none
        else m.play ⟨t.pc + 1, t.pos, t.slots.finish g t.pos⟩
      else if times.belowMax (slot.count + 1) then
        firstOf (m.play ⟨span.start + 1, t.pos, t.slots.restart g t.pos⟩)
          (if times.min ≤ slot.count + 1 then m.play ⟨t.pc + 1, t.pos, t.slots.finish g t.pos⟩
          else some none)
      else m.play ⟨t.pc + 1, t.pos, t.slots.finish g t.pos⟩ := by
  rw [play_eq, playThread, hi]
  simp only [hs, hg, Option.bind_eq_bind, Option.bind_some, firstOf, Repetition.isOnce, beq_iff_eq,
    ho, if_false]
  rfl

theorem play_branch_zero (hi : m.program.insts[t.pc]? = some ⟨.branch 0, times⟩) :
    m.play t = m.play t.next := by
  rw [play_eq, playThread, hi]
  rfl

theorem play_branch {next : Nat} (hi : m.program.insts[t.pc]? = some ⟨.branch (next + 1), times⟩) :
    m.play t = m.playBranches t.pc t.pos t.slots none := by
  rw [play_eq, playThread, hi]
  rfl

theorem play_join (hi : m.program.insts[t.pc]? = some ⟨.join g, times⟩)
    (hg : m.program.groups[g]? = some span) : m.play t = m.play ⟨span.stop, t.pos, t.slots⟩ := by
  rw [play_eq, playThread, hi]
  simp [hg]

theorem play_assert {what : Assertion} (hi : m.program.insts[t.pc]? = some ⟨.assert what, times⟩) :
    m.play t = if m.holds what t.pos then m.play t.next else some none := by
  rw [play_eq, playThread, hi]
  rfl

theorem play_consume {what : Consumer} (hi : m.program.insts[t.pc]? = some ⟨.consume what, times⟩) :
    m.play t = m.playCounts t what times 0 := by
  rw [play_eq, playThread, hi]
  rfl

theorem playCounts_eq (m : Matcher) (t : Thread) (what : Consumer) (times : Repetition)
    (count : Nat) :
    m.playCounts t what times count =
      match m.consume what t.pos t.slots with
      | none => if count < times.min then some none else m.play t.next
      | some pos =>
        if count < times.min then m.playCounts { t with pos } what times (count + 1)
        else if times.belowMax count ∧ t.pos < pos then
          firstOf (m.playCounts { t with pos } what times (count + 1)) (m.play t.next)
        else m.play t.next := by
  rw [playCounts_eq_playRepeated]
  rfl

/-- Run the alternatives behind the one headed at `marker`. -/
noncomputable def playFollowing (m : Matcher) (marker pos : Nat) (slots : Slots) (best : Option Outcome) :
    Option (Option Outcome) :=
  match m.nextBranch marker with
  | .error _ => none
  | .ok none => some best
  | .ok (some following) => m.playBranches following pos slots best

theorem playBranches_eq (m : Matcher) (marker pos : Nat) (slots : Slots) (best : Option Outcome) :
    m.playBranches marker pos slots best =
      (m.play ⟨marker + 1, pos, slots⟩).bind fun result =>
        m.playFollowing marker pos slots (Outcome.further best result) := by
  rw [playBranches_eq_playAlternatives]
  rfl

/-- Run the program from one place after the other until it succeeds. -/
noncomputable def playStops (m : Matcher) (resume : Nat) (slots : Slots) : List Nat → Option (Option Outcome)
  | [] => some none
  | stop :: stops => firstOf (m.play ⟨resume, stop, slots⟩) (m.playStops resume slots stops)

end Matcher

end PosixRegex
