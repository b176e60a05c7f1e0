import PosixRegex.Proofs.Search.Seek
import PosixRegex.Proofs.Search.Skipping

namespace PosixRegex

def SearchError.isLimit : SearchError → Bool
  | fuelExhausted _ | recursionLimit _ => true
  | malformed _ => false

/-- The run has not been stopped by a limit. -/
def WithinLimits {α : Type} (r : Except SearchError α) : Prop :=
  ∀ e, r = .error e → e.isLimit = false

theorem WithinLimits.of_isOk {α : Type} {r : Except SearchError α} (h : r.isOk = true) :
    WithinLimits r := by
  rintro e rfl
  cases h

theorem WithinLimits.of_map {α β : Type} {r : Except SearchError α} {f : α → β}
    (h : WithinLimits (r.map f)) : WithinLimits r := by
  rintro e rfl
  exact h e rfl

namespace Matcher

variable {m : Matcher} {t : Target} {p : Pattern} {limits : SearchLimits} {fuel pos : Nat}

/-- The outcome of the first search that succeeds among those at the boundaries from `start` on. -/
def firstFound (m : Matcher) (t : Target) (p : Pattern) (start : Nat) : Option Outcome :=
  (m.subject.boundaries start (m.subject.size + 1 - start)).findSome? (m.found t p)

theorem exists_of_firstFound {start : Nat} {o : Outcome} (h : m.firstFound t p start = some o) :
    ∃ pos, start ≤ pos ∧ m.subject.isBoundary pos = true ∧ m.found t p pos = some o ∧
      ∀ i, start ≤ i → i < pos → m.subject.isBoundary i = true → m.found t p i = none := by
  obtain ⟨before, pos, after, hsplit, hfound, hbefore⟩ := List.findSome?_eq_some_iff.mp h
  have hsorted := m.subject.pairwise_boundaries start (m.subject.size + 1 - start)
  rw [hsplit] at hsorted
  obtain ⟨hrange, hboundary⟩ := Subject.mem_boundaries.mp
    (hsplit ▸ List.mem_append_right before List.mem_cons_self)
  refine ⟨pos, hrange.1, hboundary, hfound, fun i hstart hi hib => hbefore i ?_⟩
  have hmem : i ∈ before ++ pos :: after :=
    hsplit ▸ Subject.mem_boundaries.mpr ⟨⟨hstart, by omega⟩, hib⟩
  rcases List.mem_append.mp hmem with hmem | hmem
  · exact hmem
  · -- The other boundaries are not before `pos`.
    obtain ⟨-, hafter, -⟩ := List.pairwise_append.mp hsorted
    rcases List.mem_cons.mp hmem with rfl | hmem
    · omega
    · have := List.rel_of_pairwise_cons hafter hmem
      omega

theorem found_of_firstFound_none {start : Nat} (h : m.firstFound t p start = none)
    (hstart : start ≤ pos) (hpos : m.subject.isBoundary pos = true) : m.found t p pos = none := by
  have hsize := Subject.le_size_of_isBoundary hpos
  exact List.findSome?_eq_none_iff.mp h pos
    (Subject.mem_boundaries.mpr ⟨⟨hstart, by omega⟩, hpos⟩)

theorem exists_walk_of_found (hm : m.program = .ofPattern t p) {o : Outcome}
    (h : m.found t p pos = some o) :
    ∃ s, m.Walk t (.alts p 1) (m.startPlace pos) s ∧ o = ⟨s.pos, s.slots.close 0 s.pos⟩ := by
  obtain ⟨stop, result, haccept, hplay, hf⟩ := play_start hm pos
  rw [play_eq_found hm] at hplay
  obtain ⟨s, hs, ho⟩ := hf.sound ((Option.some.inj hplay).symm.trans h)
  rw [play_of_walk hm haccept hs] at ho
  exact ⟨s, hs, (Option.some.inj (Option.some.inj ho)).symm⟩

theorem span?_of_found (hm : m.program = .ofPattern t p) {o : Outcome}
    (h : m.found t p pos = some o) : o.slots.span? 0 = some ⟨pos, o.stop⟩ := by
  obtain ⟨s, hs, rfl⟩ := exists_walk_of_found hm h
  have hslot : s.slots[0]? = some ⟨0, some pos, none⟩ :=
    (hs.slot_eq (Or.inl Nat.one_pos)).trans (slot_startSlots hm pos)
  exact Slots.span?_close hslot rfl hs.bounds.1

theorem isSome_found_iff (hm : m.program = .ofPattern t p) :
    (m.found t p pos).isSome = true ↔ ∃ s, m.Walk t (.alts p 1) (m.startPlace pos) s := by
  rw [Option.isSome_iff_exists]
  refine ⟨fun ⟨o, ho⟩ => (exists_walk_of_found hm ho).imp fun s hs => hs.1, fun ⟨s, hs⟩ => ?_⟩
  obtain ⟨stop, result, haccept, hplay, hf⟩ := play_start hm pos
  rw [play_eq_found hm] at hplay
  refine Option.ne_none_iff_exists'.mp fun hnone => ?_
  have hend := hf.complete ((Option.some.inj hplay).symm.trans hnone) hs
  cases (play_of_walk hm haccept hs).symm.trans hend

theorem isSome_firstFound_iff (hm : m.program = .ofPattern t p) {start : Nat} :
    (m.firstFound t p start).isSome = true ↔ ∃ pos s, start ≤ pos ∧
      m.subject.isBoundary pos = true ∧ m.Walk t (.alts p 1) (m.startPlace pos) s := by
  rw [firstFound, List.findSome?_isSome_iff]
  constructor
  · rintro ⟨pos, hpos, hfound⟩
    obtain ⟨hrange, hboundary⟩ := Subject.mem_boundaries.mp hpos
    obtain ⟨s, hs⟩ := (isSome_found_iff hm).mp hfound
    exact ⟨pos, s, hrange.1, hboundary, hs⟩
  · rintro ⟨pos, s, hstart, hboundary, hs⟩
    have hsize := Subject.le_size_of_isBoundary hboundary
    exact ⟨pos, Subject.mem_boundaries.mpr ⟨⟨hstart, by omega⟩, hboundary⟩,
      (isSome_found_iff hm).mpr ⟨s, hs⟩⟩

theorem found_of_not_admits (hm : m.program = .ofPattern t p)
    (hpos : m.subject.isBoundary pos = true) (h : ¬m.admits pos = true) :
    m.found t p pos = none := by
  refine Option.eq_none_iff_forall_ne_some.mpr fun o ho => ?_
  obtain ⟨s, hs, -⟩ := exists_walk_of_found hm ho
  exact h (admits_of_walk hm hs hpos)

theorem found_of_anchored (hm : m.program = .ofPattern t p)
    (h : m.program.flags.anchored = true) (hpos : pos ≠ 0) : m.found t p pos = none := by
  obtain ⟨hnewline, times, hi⟩ := exists_of_anchored hm h
  have hstart : m.holds .lineStart pos = false := by
    simp [holds, atLineStart, hpos, hnewline]
  have hplay : m.play (m.startThread pos) = if m.holds .lineStart pos then _ else some none :=
    play_assert hi
  rw [play_eq_found hm, hstart, if_neg Bool.false_ne_true] at hplay
  exact Option.some.inj hplay

theorem answer_eq_found (hm : m.program = .ofPattern t p)
    (h : (m.search limits fuel pos).hitsLimit = false) :
    (m.search limits fuel pos).answer? = some (m.found t p pos) :=
  search_answer (hm ▸ Program.joinsForward_ofPattern t p) (play_eq_found hm pos) h

theorem findSome?_eq_none_of_anchored (hm : m.program = .ofPattern t p)
    (h : m.program.flags.anchored = true) (count : Nat) :
    (m.subject.boundaries (pos + 1) count).findSome? (m.found t p) = none := by
  refine List.findSome?_eq_none_iff.mpr fun i hi => found_of_anchored hm h ?_
  have := (Subject.mem_boundaries.mp hi).1
  omega

theorem scan_eq_findSome? (hm : m.program = .ofPattern t p) (hp : m.program.Connected)
    {capture count : Nat} (h : WithinLimits (m.scan limits capture count pos fuel)) :
    m.scan limits capture count pos fuel =
      .ok (m.report capture ((m.subject.boundaries pos count).findSome? (m.found t p))) := by
  induction count generalizing pos fuel with
  | zero => rfl
  | succ count ih =>
    unfold scan at h ⊢
    by_cases hb : m.subject.isBoundary pos = true
    · rw [Subject.boundaries_succ_of_isBoundary count hb, List.findSome?_cons]
      by_cases ha : m.admits pos = true
      · rw [if_pos ha] at h ⊢
        simp only at h ⊢
        have hends := endsWell_search hp limits fuel pos
        have hanswer := @answer_eq_found m t p limits fuel pos hm
        unfold Ended.hitsLimit Ended.answer? at hanswer
        cases hresult : (m.search limits fuel pos).result with
        | ok result =>
          simp only [hresult, true_implies, Option.some.injEq] at h hanswer ⊢
          rw [← hanswer]
          cases result with
          | none => exact ih h
          | some o => rfl
        | error why =>
          simp only [hresult] at h hends hanswer ⊢
          cases why with
          | anchorViolation =>
            simp only [true_implies, Option.some.injEq] at hanswer
            rw [← hanswer]
            simp only [findSome?_eq_none_of_anchored hm hends]
            rfl
          | error e =>
            cases e with
            | malformed why => exact absurd rfl (hends why)
            | fuelExhausted n | recursionLimit n => cases h _ rfl
      · rw [if_neg ha] at h ⊢
        rw [found_of_not_admits hm hb ha]
        exact ih h
    · have ha : ¬m.admits pos = true := fun ha => hb (isBoundary_of_admits ha)
      rw [if_neg ha] at h ⊢
      rw [Subject.boundaries_succ_of_not_isBoundary count hb]
      exact ih h

theorem execute_eq_firstFound (hm : m.program = .ofPattern t p) (hp : m.program.Connected)
    {start capture : Nat} (h : WithinLimits (m.execute limits start capture)) :
    m.execute limits start capture = .ok (m.report capture (m.firstFound t p start)) :=
  scan_eq_findSome? hm hp h

theorem not_walk_of_execute (hm : m.program = .ofPattern t p) (hp : m.program.Connected)
    {start capture : Nat} (h : m.execute limits start capture = .ok none) (hstart : start ≤ pos)
    (hboundary : m.subject.isBoundary pos = true) (s : Place) :
    ¬m.Walk t (.alts p 1) (m.startPlace pos) s := by
  intro hs
  have hreport := h.symm.trans (execute_eq_firstFound hm hp (.of_isOk (h ▸ rfl)))
  have hfound := (isSome_firstFound_iff hm).mpr ⟨pos, s, hstart, hboundary, hs⟩
  have hnone := Option.map_eq_none_iff.mp (Except.ok.inj hreport).symm
  cases hnone ▸ hfound

end Matcher

end PosixRegex
