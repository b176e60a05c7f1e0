import PosixRegex.Proofs.Program.Connected
import PosixRegex.Search.Run

namespace PosixRegex

namespace Matcher

variable {m : Matcher} {t : Thread} {g pc : Nat} {times : Repetition} {slots : Slots}

/-- There is an instruction at `pc`, and a slot for each group. -/
def Stands (m : Matcher) (pc : Nat) (slots : Slots) : Prop :=
  pc < m.program.insts.size ∧ slots.size = m.program.groups.size

/-- What holds whenever a step is about to be made. A repetition goes on behind its instruction. -/
def Steady (m : Matcher) : Config → Prop
  | .ready t => m.Stands t.pc t.slots
  | .repeating t _ _ _ _ => m.Stands (t.pc + 1) t.slots

/-- A checkpoint that can be taken up. -/
def Usable (m : Matcher) : Checkpoint → Prop
  | .retry _ resume slots _ _ _ => m.Stands resume slots
  | .longest marker _ slots _ => slots.size = m.program.groups.size ∧
      ∃ d times, m.program.insts[marker]? = some ⟨.branch (d + 1), times⟩

/-- What holds after a step. -/
def Proceeds (m : Matcher) : Action → Prop
  | .go c => m.Steady c
  | .choose k c => m.Usable k ∧ m.Steady c
  | .stop _ => True
  | .abort why => why = .anchorViolation ∧ m.program.flags.anchored = true

theorem Stands.modified (h : m.Stands pc slots) (g : Nat) (slot : Slot) :
    m.Stands pc (slots.setIfInBounds g slot) :=
  ⟨h.1, (Array.size_setIfInBounds).trans h.2⟩

theorem Stands.slot (h : m.Stands pc slots) {span : GroupSpan}
    (hg : m.program.groups[g]? = some span) : ∃ slot, slots[g]? = some slot := by
  have hlt := (Array.getElem?_eq_some_iff.mp hg).1
  exact ⟨_, Array.getElem?_eq_getElem (h.2 ▸ hlt)⟩

theorem proceeds_endRepeat {stops : List Nat} (h : m.Stands (t.pc + 1) t.slots) :
    m.Proceeds (endRepeat t stops) := by
  cases stops with
  | nil => exact h
  | cons stop earlier => exact ⟨h, h⟩

theorem proceeds_continueRepeat {what : Consumer} {count : Nat} {stops : List Nat}
    (h : m.Stands (t.pc + 1) t.slots) :
    m.Proceeds (continueRepeat t what times count stops) := by
  unfold continueRepeat
  split
  · exact proceeds_endRepeat h
  · exact h

theorem proceeds_repeatOnce {what : Consumer} {count : Nat} {stops : List Nat}
    (h : m.Stands (t.pc + 1) t.slots) : m.Proceeds (m.repeatOnce t what times count stops) := by
  unfold repeatOnce
  split
  · split
    · exact proceeds_continueRepeat h
    · split
      · exact proceeds_continueRepeat h
      · exact proceeds_endRepeat h
  · split
    · trivial
    · exact proceeds_endRepeat h

variable (hp : m.program.Connected)

include hp

theorem proceeds_enter (hi : m.program.insts[t.pc]? = some ⟨.enter g, times⟩)
    (h : m.Stands (t.pc + 1) t.slots) : m.Proceeds (m.enter t g times) := by
  obtain ⟨span, hg, hskip⟩ := hp.enter hi
  obtain ⟨slot, hs⟩ := h.slot hg
  unfold enter
  simp only [hs, hg]
  split
  · rename_i hmin
    exact ⟨Stands.modified ⟨hskip hmin, h.2⟩ g _, h.modified g _⟩
  · exact h.modified g _

theorem proceeds_leave (hi : m.program.insts[t.pc]? = some ⟨.leave g, times⟩)
    (h : m.Stands (t.pc + 1) t.slots) : m.Proceeds (m.leave t g times) := by
  obtain ⟨span, hg, hstart⟩ := hp.leave hi
  obtain ⟨slot, hs⟩ := h.slot hg
  have hagain : m.Stands (span.start + 1) t.slots := ⟨hstart, h.2⟩
  unfold leave
  simp only [hs, hg]
  split
  · exact h.modified g _
  · split
    · trivial
    · split
      · exact h.modified g _
      · split
        · exact ⟨h.modified g _, hagain.modified g _⟩
        · exact hagain.modified g _

theorem proceeds_exec {i : Inst} (hi : m.program.insts[t.pc]? = some i)
    (h : m.Stands t.pc t.slots) : m.Proceeds (m.exec t i) := by
  obtain ⟨atom, times⟩ := i
  have hnext (ha : atom ≠ .accept) : m.Stands (t.pc + 1) t.slots := ⟨hp.next hi ha, h.2⟩
  cases atom with
  | accept =>
    have hslot := Array.getElem?_eq_getElem (show 0 < t.slots.size from h.2 ▸ hp.whole)
    simp only [exec, hslot]
    trivial
  | enter g => exact proceeds_enter hp hi (hnext (by simp))
  | leave g => exact proceeds_leave hp hi (hnext (by simp))
  | branch next =>
    cases next with
    | zero => exact hnext (by simp)
    | succ d => exact ⟨⟨h.2, d, times, hi⟩, hnext (by simp)⟩
  | join g =>
    obtain ⟨span, hg, hstop⟩ := hp.join hi
    simp only [exec, hg]
    exact ⟨hstop, h.2⟩
  | assert what =>
    simp only [exec]
    split
    · exact hnext (by simp)
    · split
      · rename_i hfirst
        exact ⟨rfl, hfirst.2.2⟩
      · trivial
  | consume what =>
    simp only [exec]
    split
    · split
      · trivial
      · exact hnext (by simp)
    · exact proceeds_continueRepeat (hnext (by simp))

theorem proceeds_step {c : Config} (hc : m.Steady c) : m.Proceeds (m.step c) := by
  cases c with
  | ready t =>
    have hi := Array.getElem?_eq_getElem hc.1
    simp only [step, hi]
    exact proceeds_exec hp hi hc
  | repeating t what times count stops => exact proceeds_repeatOnce hc

theorem nextBranch_of_head {marker d : Nat}
    (hi : m.program.insts[marker]? = some ⟨.branch (d + 1), times⟩) :
    m.nextBranch marker = .ok none ∨ ∃ following d' times',
      m.nextBranch marker = .ok (some following) ∧
      m.program.insts[following]? = some ⟨.branch (d' + 1), times'⟩ ∧
      following + 1 < m.program.insts.size := by
  obtain ⟨next, times', hn⟩ := hp.branch hi
  have h₁ : m.headDistance marker = .ok (d + 1) := by rw [headDistance, hi]
  have h₂ : m.headDistance (marker + (d + 1)) = .ok next := by rw [headDistance, hn]
  rw [nextBranch, h₁]
  simp only [bind, Except.bind, h₂]
  cases next with
  | zero => exact Or.inl rfl
  | succ d' => exact Or.inr ⟨marker + (d + 1), d', times', rfl, hn, hp.next hn (by simp)⟩

/-- What holds of the answer of a checkpoint. -/
def Decides (m : Matcher) : Verdict → Prop
  | .answer _ => True
  | .resume t again => m.Stands t.pc t.slots ∧ ∀ k ∈ again, m.Usable k
  | .abort _ => False

theorem decides_settle {k : Checkpoint} (hk : m.Usable k) (result : Option Outcome) :
    m.Decides (m.settle result k) := by
  cases k with
  | retry pc resume slots stop earlier last =>
    cases result with
    | some o => trivial
    | none =>
      refine ⟨hk, fun k hagain => ?_⟩
      cases earlier with
      | nil => cases hagain
      | cons next others =>
        cases hagain
        exact hk
  | longest marker pos slots best =>
    obtain ⟨hsize, d, times, hi⟩ := hk
    simp only [settle]
    split
    · trivial
    · obtain hn | ⟨following, d', times', hn, hf, hlt⟩ := nextBranch_of_head hp hi
      · rw [hn]
        trivial
      · rw [hn]
        refine ⟨⟨hlt, hsize⟩, ?_⟩
        rintro k ⟨⟩
        exact ⟨hsize, d', times', hf⟩

/-- What holds of a search after a path has ended. -/
def GoesOn (m : Matcher) : Unwound → Prop
  | .finished _ => True
  | .resume t stack => m.Stands t.pc t.slots ∧ ∀ k ∈ stack.items, m.Usable k
  | .abort _ => False

theorem goesOn_unwind {items : List Checkpoint} {size : Nat} (hsize : size = items.length)
    (hk : ∀ k ∈ items, m.Usable k) (result : Option Outcome) :
    m.GoesOn (m.unwind items size hsize result) := by
  induction items generalizing size result with
  | nil => trivial
  | cons k items ih =>
    have hitems : ∀ k ∈ items, m.Usable k := fun k' h => hk k' (List.mem_cons_of_mem k h)
    have hdec := decides_settle hp (hk k List.mem_cons_self) result
    unfold unwind
    generalize m.settle result k = verdict at hdec
    cases verdict with
    | answer r => exact ih _ hitems r
    | resume t again =>
      obtain ⟨ht, hagain⟩ := hdec
      cases again with
      | none => exact ⟨ht, hitems⟩
      | some k' => exact ⟨ht, List.forall_mem_cons.mpr ⟨hagain k' rfl, hitems⟩⟩
    | abort why => exact hdec

/-- The program has not misled the search, which has only been given up if the program is
anchored. -/
def EndsWell (m : Matcher) : Except Abort (Option Outcome) → Prop
  | .ok _ => True
  | .error .anchorViolation => m.program.flags.anchored = true
  | .error (.error e) => ∀ why, e ≠ .malformed why

theorem endsWell_run {limits : SearchLimits} {fuel : Nat} {c : Config} {stack : Stack}
    (hc : m.Steady c) (hk : ∀ k ∈ stack.items, m.Usable k) :
    m.EndsWell (m.run limits fuel c stack).result := by
  induction fuel generalizing c stack with
  | zero => simp [run, EndsWell]
  | succ fuel ih =>
    have hact := proceeds_step hp hc
    unfold run
    generalize m.step c = action at hact
    cases action with
    | go c => exact ih hact hk
    | choose k c =>
      simp only
      split
      · simp [EndsWell]
      · exact ih hact.2 (List.forall_mem_cons.mpr ⟨hact.1, hk⟩)
    | stop result =>
      have hon := goesOn_unwind hp stack.size_eq hk result
      simp only
      generalize m.unwind stack.items stack.size stack.size_eq result = unwound at hon
      cases unwound with
      | finished r => trivial
      | resume t stack => exact ih hon.1 hon.2
      | abort why => exact hon.elim
    | abort why =>
      obtain ⟨rfl, hanchored⟩ := hact
      exact hanchored

theorem endsWell_search (limits : SearchLimits) (fuel pos : Nat) :
    m.EndsWell (m.search limits fuel pos).result := by
  have hstart : m.Steady (.ready (m.startThread pos)) :=
    ⟨hp.nonempty, by simp [startThread, startSlots]⟩
  exact endsWell_run hp hstart (by simp [Stack.empty])

theorem scan_ne_malformed {limits : SearchLimits} {capture count pos fuel : Nat}
    (why : Malformation) : m.scan limits capture count pos fuel ≠ .error (.malformed why) := by
  induction count generalizing pos fuel with
  | zero => simp [scan]
  | succ count ih =>
    have hsearch := endsWell_search hp limits fuel pos
    unfold scan
    split
    · simp only
      split
      · simp
      · exact ih
      · simp
      · rename_i e he
        rw [he] at hsearch
        rintro ⟨⟩
        exact hsearch why rfl
    · exact ih

omit hp

/-- A compiled program does not mislead a search. -/
theorem execute_compiled_ne_malformed {o : Options} {l : Locale} {compileLimits : CompileLimits}
    {text : List Char} (hc : Program.compile o l compileLimits text = .ok m.program)
    (limits : SearchLimits) (start capture : Nat) (why : Malformation) :
    m.execute limits start capture ≠ .error (.malformed why) :=
  scan_ne_malformed (Program.connected_of_compile hc) why

def intricateIn (cs : List Char) : Matcher :=
  ⟨.ofPattern ⟨{ dialect := .extended }, .posix, 255⟩ Program.intricate, .posix, .ofList cs, {}⟩

theorem execute_compiled_ne_malformed_intricate :
    (intricateIn ['b', 'c', 'd']).execute {} 0 3 ≠ .error (.malformed (.missingHead 0)) :=
  execute_compiled_ne_malformed (m := intricateIn ['b', 'c', 'd'])
    (show Program.compile { dialect := .extended } .posix {}
        ['(', 'a', '|', '(', 'b', '|', 'c', ')', '*', ')', '|', 'd']
      = .ok (intricateIn ['b', 'c', 'd']).program by decide)
    {} 0 3 (.missingHead 0)

/-- No program without defects misleads a search, however it has been made, if its markers name
groups. -/
theorem execute_verified_ne_malformed (hv : m.program.defect? = none)
    (hn : m.program.namesGroups = true) (limits : SearchLimits) (start capture : Nat)
    (why : Malformation) : m.execute limits start capture ≠ .error (.malformed why) :=
  scan_ne_malformed (Program.connected_of_defect? hv hn) why

def handWritten (insts : List Inst) (groups : List GroupSpan) (cs : List Char) : Matcher :=
  ⟨⟨insts.toArray, groups.toArray, .full, ⟨false, false, false, false⟩⟩, .posix, .ofList cs, {}⟩

def crossing (cs : List Char) : Matcher :=
  handWritten [⟨.enter 1, .plus⟩, .ofAtom (.consume (.literal 'a')), ⟨.enter 2, .star⟩,
      .ofAtom (.consume (.literal 'b')), ⟨.leave 1, .plus⟩, ⟨.leave 2, .star⟩, .ofAtom .accept]
    [⟨0, 6⟩, ⟨0, 4⟩, ⟨2, 5⟩] cs

theorem execute_verified_ne_malformed_crossing :
    (crossing ['a', 'b', 'b']).execute {} 0 3 ≠ .error (.malformed (.unknownGroup 2)) :=
  execute_verified_ne_malformed (m := crossing ['a', 'b', 'b']) (by decide) (by decide) {} 0 3
    (.unknownGroup 2)

def strayEntry : Matcher := handWritten [.ofAtom (.enter 1), .ofAtom .accept] [⟨0, 1⟩] ['a']

def strayExit : Matcher := handWritten [.ofAtom (.leave 1), .ofAtom .accept] [⟨0, 1⟩] ['a']

/-- A program that is itself marked as a group that may be skipped. -/
def skippedWhole : Matcher :=
  handWritten [⟨.enter 0, .optional⟩, .ofAtom (.consume (.literal 'a')), .ofAtom .accept]
    [⟨0, 2⟩] ['b']

/-- That a program is without defects is not enough. -/
theorem exists_verified_malformed :
    (strayEntry.program.defect? = none ∧
      strayEntry.execute {} 0 1 = .error (.malformed (.unknownGroup 1))) ∧
    (strayExit.program.defect? = none ∧
      strayExit.execute {} 0 1 = .error (.malformed (.unknownGroup 1))) ∧
    skippedWhole.program.defect? = none ∧
      skippedWhole.execute {} 0 1 = .error (.malformed (.outOfProgram 3)) := by
  decide +kernel

end Matcher

end PosixRegex
