import PosixRegex.Proofs.Search.Control
import PosixRegex.Proofs.Search.Nesting

namespace PosixRegex

structure Subject.BoundaryFrom (s : Subject) (lo pos : Nat) : Prop where
  lo_le : lo ≤ pos
  le_size : pos ≤ s.size
  isBoundary : s.isBoundary pos = true

def Slot.BoundariesFrom (slot : Slot) (s : Subject) (lo : Nat) : Prop :=
  (∀ start ∈ slot.start, s.BoundaryFrom lo start) ∧ ∀ stop ∈ slot.stop, s.BoundaryFrom lo stop

def Slots.BoundariesFrom (slots : Slots) (s : Subject) (lo : Nat) : Prop :=
  ∀ slot ∈ slots, slot.BoundariesFrom s lo

structure Thread.BoundariesFrom (t : Thread) (s : Subject) (lo : Nat) : Prop where
  pos : s.BoundaryFrom lo t.pos
  slots : t.slots.BoundariesFrom s lo

structure Outcome.BoundariesFrom (o : Outcome) (s : Subject) (lo : Nat) : Prop where
  stop : s.BoundaryFrom lo o.stop
  slots : o.slots.BoundariesFrom s lo

/-- All places of the running thread are boundaries. The places where a repetition could have ended
lie in front of each other, and all of them in front of the thread. -/
def Config.BoundariesFrom (s : Subject) (lo : Nat) : Config → Prop
  | ready t => t.BoundariesFrom s lo
  | repeating t _ _ _ stops => t.BoundariesFrom s lo ∧ (∀ stop ∈ stops, s.BoundaryFrom lo stop) ∧
      (t.pos :: stops).Pairwise (· > ·)

/-- An ordered choice has at least one stop. Its stops, the one that is tried last first, ascend, and
none of them lies behind the place where the running path started. The marker of an alternative is a
head that leads to another one, and no alternative before it has got to the end of the subject. -/
inductive Checkpoint.WellFormed (m : Matcher) (lo : Nat) : Checkpoint → Prop
  | retry {pc resume stop last : Nat} {earlier : List Nat} {slots : Slots}
      (hplaces : ∀ place ∈ last :: stop :: earlier, m.subject.BoundaryFrom lo place)
      (hslots : slots.BoundariesFrom m.subject lo)
      (hascending : (stop :: earlier).reverse.Pairwise (· < ·))
      (hlast : ∀ place ∈ stop :: earlier, place ≤ last) :
      WellFormed m lo (.retry pc resume slots stop earlier last)
  | longest {marker pos next : Nat} {times : Repetition} {slots : Slots} {best : Option Outcome}
      (hhead : m.program.insts[marker]? = some ⟨.branch next, times⟩) (hnext : next ≠ 0)
      (hpos : m.subject.BoundaryFrom lo pos) (hslots : slots.BoundariesFrom m.subject lo)
      (hbest : ∀ o ∈ best, o.BoundariesFrom m.subject lo ∧ o.stop < m.subject.size) :
      WellFormed m lo (.longest marker pos slots best)

/-- What a search from `lo` keeps, apart from the number of its checkpoints. -/
def Matcher.tidy (m : Matcher) (lo : Nat) : Conditions where
  config := Config.BoundariesFrom m.subject lo
  checkpoint := Checkpoint.WellFormed m lo
  outcome o := o.BoundariesFrom m.subject lo

variable {m : Matcher} {limits : SearchLimits} {lo pos g count : Nat} {t : Thread} {slot : Slot}
  {slots : Slots} {what : Consumer} {times : Repetition} {stops : List Nat} {s : State}

theorem Slots.BoundariesFrom.set {s : Subject} (h : slots.BoundariesFrom s lo)
    (hslot : slot.BoundariesFrom s lo) (g : Nat) :
    Slots.BoundariesFrom (slots.setIfInBounds g slot) s lo := by
  intro slot' hmem
  obtain hmem | rfl := Array.mem_or_eq_of_mem_setIfInBounds hmem
  · exact h slot' hmem
  · exact hslot

theorem Subject.BoundaryFrom.consume {next : Nat} (h : m.subject.BoundaryFrom lo pos)
    (hc : m.consume what pos slots = some next) : m.subject.BoundaryFrom lo next := by
  have hbounds := Matcher.consume_bounds hc
  have hsize := h.le_size
  exact ⟨Nat.le_trans h.lo_le hbounds.1, by omega, Matcher.isBoundary_of_consume h.isBoundary hc⟩

theorem Thread.BoundariesFrom.next {s : Subject} (h : t.BoundariesFrom s lo) :
    t.next.BoundariesFrom s lo :=
  ⟨h.pos, h.slots⟩

theorem Thread.BoundariesFrom.consume {next : Nat} (h : t.BoundariesFrom m.subject lo)
    (hc : m.consume what t.pos slots = some next) :
    Thread.BoundariesFrom { t with pos := next } m.subject lo :=
  ⟨h.pos.consume hc, h.slots⟩

namespace Matcher

section Repetitions

theorem tidy_endRepeat (h : (Config.repeating t what times count stops).BoundariesFrom m.subject lo) :
    (endRepeat t stops).Meets (m.tidy lo) := by
  obtain ⟨ht, hstops, hdescending⟩ := h
  cases stops with
  | nil => exact ht.next
  | cons stop earlier =>
    obtain ⟨hbelow, hdescending⟩ := List.pairwise_cons.mp hdescending
    refine ⟨.retry (List.forall_mem_cons.mpr ⟨ht.pos, hstops⟩) ht.slots ?_ ?_, ht.next⟩
    · exact List.pairwise_reverse.mpr hdescending
    · exact fun place hplace => Nat.le_of_lt (hbelow place hplace)

theorem tidy_continueRepeat
    (h : (Config.repeating t what times count stops).BoundariesFrom m.subject lo) :
    (continueRepeat t what times count stops).Meets (m.tidy lo) := by
  unfold continueRepeat
  split
  · exact tidy_endRepeat h
  · exact h

theorem tidy_repeatOnce
    (h : (Config.repeating t what times count stops).BoundariesFrom m.subject lo) :
    (m.repeatOnce t what times count stops).Meets (m.tidy lo) := by
  obtain ⟨ht, hstops, hdescending⟩ := id h
  unfold repeatOnce
  split
  · rename_i next hc
    have hnext := ht.consume hc
    split
    · exact tidy_continueRepeat ⟨hnext, by simp, by simp⟩
    · split
      · rename_i hlt
        refine tidy_continueRepeat ⟨hnext, List.forall_mem_cons.mpr ⟨ht.pos, hstops⟩, ?_⟩
        refine List.pairwise_cons.mpr ⟨List.forall_mem_cons.mpr ⟨hlt, fun stop hstop => ?_⟩,
          hdescending⟩
        exact Nat.lt_trans ((List.pairwise_cons.mp hdescending).1 stop hstop) hlt
      · exact tidy_endRepeat h
  · split
    · exact Action.meets_fail _
    · exact tidy_endRepeat h

end Repetitions

section Instructions

variable (h : t.BoundariesFrom m.subject lo)

include h

theorem tidy_enter : (m.enter t g times).Meets (m.tidy lo) := by
  unfold enter
  split
  · rename_i slot span hs hg
    have hslot := h.slots slot (Array.mem_of_getElem? hs)
    have hentered : Slot.BoundariesFrom ⟨0, some t.pos, slot.stop⟩ m.subject lo :=
      ⟨by rintro _ ⟨⟩; exact h.pos, hslot.2⟩
    have hskipped : Slot.BoundariesFrom ⟨slot.count, none, none⟩ m.subject lo := ⟨by simp, by simp⟩
    have hgo : Config.BoundariesFrom m.subject lo
        (.ready { t.next with slots := t.slots.setIfInBounds g ⟨0, some t.pos, slot.stop⟩ }) :=
      ⟨h.pos, h.slots.set hentered g⟩
    simp only
    split
    · refine ⟨.retry ?_ (h.slots.set hskipped g) (by simp) (by simp), hgo⟩
      simpa using h.pos
    · exact hgo
  · trivial

theorem tidy_leave : (m.leave t g times).Meets (m.tidy lo) := by
  unfold leave
  split
  · rename_i slot span hs hg
    have hslot := h.slots slot (Array.mem_of_getElem? hs)
    have hhere : ∀ place ∈ some t.pos, m.subject.BoundaryFrom lo place := by
      rintro _ ⟨⟩
      exact h.pos
    have hfinished (count : Nat) : Slot.BoundariesFrom ⟨count, slot.start, some t.pos⟩ m.subject lo :=
      ⟨hslot.1, hhere⟩
    have hbehind (count : Nat) : Config.BoundariesFrom m.subject lo
        (.ready { t.next with slots := t.slots.setIfInBounds g ⟨count, slot.start, some t.pos⟩ }) :=
      ⟨h.pos, h.slots.set (hfinished count) g⟩
    simp only
    split
    · exact hbehind slot.count
    · split
      · exact Action.meets_fail _
      · split
        · exact hbehind (slot.count + 1)
        · have hagain : Config.BoundariesFrom m.subject lo (.ready ⟨span.start + 1, t.pos,
              t.slots.setIfInBounds g ⟨slot.count + 1, some t.pos, some t.pos⟩⟩) :=
            ⟨h.pos, h.slots.set ⟨hhere, hhere⟩ g⟩
          split
          · refine ⟨.retry ?_ (h.slots.set (hfinished _) g) (by simp) (by simp), hagain⟩
            simpa using h.pos
          · exact hagain
  · trivial

theorem tidy_exec {i : Inst} (hi : m.program.insts[t.pc]? = some i) :
    (m.exec t i).Meets (m.tidy lo) := by
  obtain ⟨atom, times⟩ := i
  cases atom with
  | accept =>
    simp only [exec]
    split
    · trivial
    · rename_i slot hs
      have hslot := h.slots slot (Array.mem_of_getElem? hs)
      have hclosed : Slot.BoundariesFrom { slot with stop := some t.pos } m.subject lo :=
        ⟨hslot.1, by rintro _ ⟨⟩; exact h.pos⟩
      rintro _ ⟨⟩
      exact ⟨h.pos, h.slots.set hclosed 0⟩
  | enter g => exact tidy_enter h
  | leave g => exact tidy_leave h
  | branch next =>
    cases next with
    | zero => exact h.next
    | succ d => exact ⟨.longest hi (Nat.succ_ne_zero d) h.pos h.slots (by simp), h.next⟩
  | join g =>
    simp only [exec]
    split
    · trivial
    · exact ⟨h.pos, h.slots⟩
  | assert what =>
    simp only [exec]
    split
    · exact h.next
    · split
      · trivial
      · exact Action.meets_fail _
  | consume what =>
    simp only [exec]
    split
    · split
      · exact Action.meets_fail _
      · rename_i next hc
        exact (h.consume hc).next
    · exact tidy_continueRepeat ⟨h, by simp, by simp⟩

end Instructions

section Checkpoints

variable {result : Option Outcome} (hresult : ∀ o ∈ result, o.BoundariesFrom m.subject lo)

include hresult

theorem tidy_settle_retry {pc resume stop last : Nat} {earlier : List Nat}
    (h : (Checkpoint.retry pc resume slots stop earlier last).WellFormed m lo) :
    (m.settle result (.retry pc resume slots stop earlier last)).Meets (m.tidy lo) := by
  obtain ⟨hplaces, hslots, hascending, -⟩ := h
  obtain ⟨-, hplaces⟩ := List.forall_mem_cons.mp hplaces
  cases result with
  | some o => exact hresult
  | none =>
    refine ⟨⟨hplaces stop List.mem_cons_self, hslots⟩, fun k hagain => ?_⟩
    cases earlier with
    | nil => cases hagain
    | cons next others =>
      cases hagain
      obtain ⟨hbelow, hdescending⟩ := List.pairwise_cons.mp (List.pairwise_reverse.mp hascending)
      exact .retry hplaces hslots (List.pairwise_reverse.mpr hdescending)
        fun place hplace => Nat.le_of_lt (hbelow place hplace)

theorem tidy_settle_longest {marker : Nat} {best : Option Outcome}
    (h : (Checkpoint.longest marker pos slots best).WellFormed m lo) :
    (m.settle result (.longest marker pos slots best)).Meets (m.tidy lo) := by
  obtain _ | ⟨-, -, hpos, hslots, hbest⟩ := h
  have hfurther : ∀ o ∈ Outcome.further best result, o.BoundariesFrom m.subject lo :=
    fun o ho => (Outcome.further_eq_some ho).elim (fun ho => (hbest o ho).1) (hresult o)
  rw [settle_longest_eq]
  split
  · exact hfurther
  · rename_i hshort
    split
    · trivial
    · exact hfurther
    · rename_i following hnext
      obtain ⟨-, d, -, times, -, -, hhead⟩ := nextBranch_eq_some hnext
      refine ⟨⟨hpos, hslots⟩, ?_⟩
      rintro k ⟨⟩
      refine .longest hhead (Nat.succ_ne_zero d) hpos hslots fun o ho => ⟨hfurther o ho, ?_⟩
      obtain ho | ho := Outcome.further_eq_some ho
      · exact (hbest o ho).2
      · -- Else the search would not go on with another alternative.
        have hne : o.stop ≠ m.subject.size := by simpa [ho] using hshort
        have hle := (hresult o ho).stop.le_size
        omega

end Checkpoints

theorem maintains_tidy (m : Matcher) (lo : Nat) : m.Maintains (m.tidy lo) where
  step {c} hc := by
    cases c with
    | ready t =>
      simp only [step]
      split
      · trivial
      · rename_i i hi
        exact tidy_exec hc hi
    | repeating t what times count stops => exact tidy_repeatOnce hc
  settle {k result} hk hresult := by
    cases k with
    | retry => exact tidy_settle_retry hresult hk
    | longest => exact tidy_settle_longest hresult hk

theorem boundariesFrom_startThread (hlo : m.subject.isBoundary lo = true) :
    (m.startThread lo).BoundariesFrom m.subject lo := by
  have hstart : m.subject.BoundaryFrom lo lo :=
    ⟨Nat.le_refl lo, Subject.le_size_of_isBoundary hlo, hlo⟩
  refine ⟨hstart, fun slot hslot => ?_⟩
  obtain ⟨g, hg⟩ := Array.getElem?_of_mem hslot
  simp only [startThread, startSlots, Array.getElem?_modify] at hg
  split at hg
  · obtain ⟨blank, hblank, rfl⟩ := Option.map_eq_some_iff.mp hg
    obtain rfl : blank = {} := Array.eq_of_mem_replicate (Array.mem_of_getElem? hblank)
    exact ⟨by rintro _ ⟨⟩; exact hstart, by simp⟩
  · obtain rfl : slot = {} := Array.eq_of_mem_replicate (Array.mem_of_getElem? hg)
    exact ⟨by simp, by simp⟩

/-- Putting a checkpoint back does not take more room than it had before. -/
theorem size_of_unwind {items : List Checkpoint} {size : Nat} {hsize : size = items.length}
    {result : Option Outcome} {stack : Stack}
    (h : m.unwind items size hsize result = .resume t stack) : stack.size ≤ size := by
  induction items generalizing size result with
  | nil => cases h
  | cons k items ih =>
    unfold unwind at h
    split at h
    · exact Nat.le_trans (ih h) (Nat.sub_le _ _)
    · cases h
      exact Nat.sub_le _ _
    · cases h
      exact Nat.le_refl _
    · cases h

/-- A checkpoint is only added where there is room for one. -/
theorem size_of_next? {s' : State} (hs : s.stack.size ≤ limits.recursion)
    (h : m.next? limits s = some s') : s'.stack.size ≤ limits.recursion := by
  unfold next? at h
  split at h
  · cases h
    exact hs
  · split at h
    · cases h
    · rename_i hroom
      cases h
      exact Nat.lt_of_not_le hroom
  · split at h
    · rename_i hunwound
      cases h
      exact Nat.le_trans (size_of_unwind hunwound) hs
    · cases h
  · cases h

theorem size_le_recursion (h : m.Visits limits pos s) : s.stack.size ≤ limits.recursion := by
  induction h with
  | start => exact Nat.zero_le _
  | next _ hnext ih => exact size_of_next? ih hnext

/-- The checkpoints of a search from a boundary are well formed in every state that it goes through,
and there are no more of them than the limit admits. This does not depend on the program. -/
theorem checkpoints_wellFormed (hlo : m.subject.isBoundary lo = true)
    (hs : m.Visits limits lo s) :
    s.stack.items.length ≤ limits.recursion ∧ s.config.BoundariesFrom m.subject lo ∧
      ∀ k ∈ s.stack.items, k.WellFormed m lo := by
  have htidy := (m.maintains_tidy lo).visits (boundariesFrom_startThread hlo) hs
  exact ⟨s.stack.size_eq ▸ size_le_recursion hs, htidy.config, htidy.stack⟩

def extending : Pattern :=
  .leaf (.char 'é') .once (.bar (.leaf (.char 'é') .star .done))

/-- The first alternative has ended behind one character, and the second one has passed two of them
with two places to go back to. -/
def extended : State :=
  ⟨.ready ⟨5, 4, #[⟨0, some 0, none⟩]⟩,
    ⟨[.retry 4 5 #[⟨0, some 0, none⟩] 2 [0] 4,
      .longest 3 0 #[⟨0, some 0, none⟩] (some ⟨2, #[⟨0, some 0, some 2⟩]⟩)], 2, rfl⟩⟩

theorem checkpoints_wellFormed_extended :
    extended.stack.items.length ≤ 2 ∧
      extended.config.BoundariesFrom (matcherIn extending ['é', 'é', 'a']).subject 0 ∧
      ∀ k ∈ extended.stack.items, k.WellFormed (matcherIn extending ['é', 'é', 'a']) 0 := by
  have hvisits : (matcherIn extending ['é', 'é', 'a']).Visits { recursion := 2 } 0 extended :=
    .next (.next (.next (.next (.next (.next (.next (.next .start rfl) rfl) rfl) rfl) rfl) rfl) rfl)
      rfl
  exact checkpoints_wellFormed (by decide) hvisits

end Matcher

end PosixRegex
