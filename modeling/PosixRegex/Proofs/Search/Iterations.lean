import Mathlib.Data.List.Chain
import PosixRegex.Proofs.Search.Control
import PosixRegex.Proofs.Search.Nesting

namespace PosixRegex

/-- The iterations that end in a list of threads, where the first one has started at `pos`. -/
def GroupSpan.iterations (span : GroupSpan) (pos : Nat) : List Thread → List Span
  | [] => []
  | t :: ts =>
    if t.pc = span.stop then ⟨pos, t.pos⟩ :: span.iterations t.pos ts else span.iterations pos ts

/-- A stay of a path in a group, from the marker at its start to the first place outside of it. -/
structure GroupSpan.Visit (span : GroupSpan) (course : List Thread) (entry : Thread)
    (inside : List Thread) (exit : Thread) : Prop where
  splits : ∃ before after, course = before ++ entry :: (inside ++ exit :: after)
  enters : entry.pc = span.start
  stays : ∀ t ∈ inside, span.Around t.pc
  leaves : ¬span.Around exit.pc

namespace Matcher

/-- The threads of a path from `pos`, one after the other, that arrives with an outcome. -/
structure Course (m : Matcher) (pos : Nat) (course : List Thread) (o : Outcome) : Prop where
  starts : course.head? = some (m.startThread pos)
  moves : course.IsChain m.Moves
  arrives : ∃ t, course.getLast? = some t ∧ m.ArrivesWith t o

variable {m : Matcher} {pos g k p : Nat} {o : Outcome} {span : GroupSpan} {times : Repetition}
  {t entry exit : Thread} {course inside after : List Thread}

theorem Arrives.exists_course (h : m.Arrives pos o) : ∃ course, m.Course pos course o := by
  obtain ⟨t, hreach, harrives⟩ := h
  obtain ⟨later, hchain, hlast⟩ := List.exists_isChain_cons_of_relationReflTransGen hreach
  refine ⟨_, rfl, hchain, t, ?_, harrives⟩
  rw [List.getLast?_eq_some_getLast (List.cons_ne_nil _ _), hlast]

/-- An iteration is under way: `k` others are complete, and it has started at `p`. -/
structure Iterating (g : Nat) (times : Repetition) (k p : Nat) (t : Thread) : Prop where
  slot {slot : Slot} (hs : t.slots[g]? = some slot) : slot.count = k ∧ slot.start = some p
  room : k = 0 ∨ times.belowMax k = true

theorem Iterating.succ_le (h : Iterating g times k p t) {n : Nat} (hn : times.max? = some n) :
    k + 1 ≤ max n 1 := by
  obtain rfl | hroom := h.room
  · exact Nat.le_max_right n 1
  · exact Nat.le_trans (Repetition.belowMax_iff.mp hroom n hn) (Nat.le_max_left n 1)

/-- What holds of the rest of a stay: `k` iterations are complete, and `rounds` follow. -/
structure Completes (times : Repetition) (k : Nat) (rounds : List Span) : Prop where
  nonempty : rounds ≠ []
  most {n : Nat} (hn : times.max? = some n) : k + rounds.length ≤ max n 1
  least : times.min ≤ k + rounds.length ∨
    ∃ last, rounds.getLast? = some last ∧ last.isEmpty = true

theorem Iterating.completes_last (h : Iterating g times k p t)
    (hend : times.min ≤ k + 1 ∨ p = t.pos) : Completes times k [⟨p, t.pos⟩] where
  nonempty := List.cons_ne_nil _ _
  most := h.succ_le
  least := hend.imp id fun hp => ⟨_, rfl, by simp [Span.isEmpty, hp]⟩

theorem Completes.cons {rounds : List Span} (h : Completes times (k + 1) rounds) (round : Span) :
    Completes times k (round :: rounds) where
  nonempty := List.cons_ne_nil _ _
  most hn := by
    have hmost := h.most hn
    rw [List.length_cons]
    omega
  least := by
    obtain hmin | ⟨last, hlast, hempty⟩ := h.least
    · rw [List.length_cons]
      exact .inl (by omega)
    · exact .inr ⟨last, by simp [List.getLast?_cons, hlast], hempty⟩

variable (hp : m.program.Structured) (hg : 1 ≤ g) (hspan : m.program.groups[g]? = some span)

include hp hg hspan

/-- From inside of the group a path goes on inside, or ends the iteration at the marker. Behind it the
path is outside of the group or in the next iteration. -/
theorem Iterating.move (hleave : m.program.insts[span.stop]? = some ⟨.leave g, times⟩)
    (h : Iterating g times k p t) (ht : span.Around t.pc) {t' : Thread} (hmove : m.Moves t t') :
    t.pc ≠ span.stop ∧ span.Around t'.pc ∧ Iterating g times k p t' ∨
      t.pc = span.stop ∧ t'.pc = span.stop + 1 ∧ (times.min ≤ k + 1 ∨ p = t.pos) ∨
      t.pc = span.stop ∧ span.Around t'.pc ∧ Iterating g times (k + 1) t.pos t' := by
  by_cases hstop : t.pc = span.stop
  · have hordered := (hp.inOrder hleave).ordered
    have hlt := (Program.exists_markers hp.wellFormed hg hspan).1
    rw [← hstop] at hleave
    obtain ⟨rfl, rfl⟩ | ⟨slot, hs, ⟨hend, rfl⟩ | ⟨-, hmax, rfl⟩⟩ :=
      hmove.of_stop hp hspan hleave
    · exact .inr (.inl ⟨hstop, rfl, .inl (Nat.le_add_left 1 k)⟩)
    · obtain ⟨rfl, hstart⟩ := h.slot hs
      refine .inr (.inl ⟨hstop, rfl, ?_⟩)
      obtain ⟨hempty, -⟩ | ⟨-, hmin | hfull⟩ := hend
      · exact .inr (Option.some.inj (hstart.symm.trans hempty))
      · exact .inl hmin
      · exact .inl (Repetition.min_le_of_full hordered hfull)
    · obtain ⟨rfl, -⟩ := h.slot hs
      refine .inr (.inr ⟨hstop, ⟨Nat.lt_succ_self _, hlt⟩, ?_, .inr hmax⟩)
      intro slot' hs'
      obtain rfl := Option.some.inj ((Slots.getElem?_restart hs t.pos).symm.trans hs')
      exact ⟨rfl, rfl⟩
  · have hstart : t.pc ≠ span.start := Nat.ne_of_gt ht.1
    have ht' := (hmove.around_iff hp hg hspan hstart hstop).mp ht
    refine .inl ⟨hstop, ht', ?_, h.room⟩
    intro slot' hs'
    rw [hmove.slot_eq_of_between hp hspan hstart hstop] at hs'
    exact h.slot hs'

theorem Iterating.completes (hleave : m.program.insts[span.stop]? = some ⟨.leave g, times⟩)
    (h : Iterating g times k p t) (ht : span.Around t.pc)
    (hmoves : (t :: (inside ++ exit :: after)).IsChain m.Moves)
    (hstays : ∀ t ∈ inside, span.Around t.pc) (hout : ¬span.Around exit.pc) :
    exit.pc = span.stop + 1 ∧ Completes times k (span.iterations p (t :: inside)) := by
  have hbehind : ¬span.Around (span.stop + 1) := fun h => absurd h.2 (Nat.not_succ_le_self _)
  induction inside generalizing t k p with
  | nil =>
    have hmove := (List.isChain_cons_cons.mp hmoves).1
    obtain ⟨-, hin, -⟩ | ⟨hstop, hexit, hend⟩ | ⟨-, hin, -⟩ := h.move hp hg hspan hleave ht hmove
    · exact absurd hin hout
    · rw [GroupSpan.iterations, if_pos hstop]
      exact ⟨hexit, h.completes_last hend⟩
    · exact absurd hin hout
  | cons t' inside ih =>
    obtain ⟨hmove, hmoves⟩ := List.isChain_cons_cons.mp hmoves
    obtain ⟨hin, hstays⟩ := List.forall_mem_cons.mp hstays
    obtain ⟨hne, -, h'⟩ | ⟨-, hexit, -⟩ | ⟨hstop, -, h'⟩ := h.move hp hg hspan hleave ht hmove
    · rw [GroupSpan.iterations, if_neg hne]
      exact ih h' hin hmoves hstays
    · exact absurd (hexit ▸ hin) hbehind
    · obtain ⟨hexit, hcompletes⟩ := ih h' hin hmoves hstays
      rw [GroupSpan.iterations, if_pos hstop]
      exact ⟨hexit, hcompletes.cons _⟩

omit hg

/-- A stay in a group, from the marker at its start on. Without any iteration the group has been
skipped. -/
theorem visit_bounds (henter : m.program.insts[span.start]? = some ⟨.enter g, times⟩)
    (hmoves : course.IsChain m.Moves) (hvisit : span.Visit course entry inside exit) :
    exit.pc = span.stop + 1 ∧
      (inside = [] ∧ times.min = 0 ∨ Completes times 0 (span.iterations entry.pos inside)) := by
  obtain ⟨hg, -⟩ := hp.enter henter
  obtain ⟨hlt, times', henter', hleave⟩ := Program.exists_markers hp.wellFormed hg hspan
  obtain rfl : times = times' := by
    rw [henter] at henter'
    cases henter'
    rfl
  obtain ⟨⟨before, after, rfl⟩, hentry, hstays, hout⟩ := hvisit
  have hmoves := (List.isChain_append.mp hmoves).2.1
  -- The marker either skips the group, so that nothing is inside, or starts its first iteration.
  rw [← hentry] at henter
  cases inside with
  | nil =>
    have hmove := (List.isChain_cons_cons.mp hmoves).1
    obtain rfl | ⟨hmin, rfl⟩ := hmove.of_start hp hspan henter
    · exact absurd ⟨Nat.lt_succ_self _, hlt⟩ hout
    · exact ⟨rfl, .inl ⟨rfl, hmin⟩⟩
  | cons t inside =>
    obtain ⟨hmove, hmoves⟩ := List.isChain_cons_cons.mp hmoves
    obtain ⟨hin, hrest⟩ := List.forall_mem_cons.mp hstays
    obtain rfl | ⟨-, rfl⟩ := hmove.of_start hp hspan henter
    · have hfirst : Iterating g times 0 entry.pos
          ⟨span.start + 1, entry.pos, entry.slots.enter g entry.pos⟩ := by
        refine ⟨fun {slot} hs => ?_, .inl rfl⟩
        rw [Slots.enter, Slots.getElem?_modify_self] at hs
        obtain ⟨slot, -, rfl⟩ := Option.map_eq_some_iff.mp hs
        exact ⟨rfl, rfl⟩
      obtain ⟨hexit, hcompletes⟩ := hfirst.completes hp hg hspan hleave hin hmoves hrest hout
      exact ⟨hexit, .inr hcompletes⟩
    · exact absurd hin fun h => absurd h.2 (Nat.not_succ_le_self _)

omit hp hspan

/-- A repeated group stays within its bounds. Every match is that of some path, and each time a path
goes through the marker at the start of a group and comes out of the group, it has made at most as
many iterations as the upper bound says, or one if that is zero, and as many as the lower bound says,
unless the last one is empty. It has made none only if it has skipped a group whose lower bound is
zero. -/
theorem iterations_within_bounds {o : Options} {l : Locale} {compileLimits : CompileLimits}
    {text : List Char} (hc : Program.compile o l compileLimits text = .ok m.program) :
    (∀ limits start capture caps, m.execute limits start capture = .ok (some caps) →
      ∃ pos course o, start ≤ pos ∧ m.Course pos course o ∧
        caps = .ofSlots o.slots (m.captureLimit capture)) ∧
    ∀ pos course o, m.Course pos course o → ∀ (g : Nat) (span : GroupSpan) (times : Repetition)
      (entry : Thread) (inside : List Thread) (exit : Thread),
      m.program.groups[g]? = some span →
      m.program.insts[span.start]? = some ⟨.enter g, times⟩ →
      span.Visit course entry inside exit →
      exit.pc = span.stop + 1 ∧
      (∀ n, times.max? = some n → (span.iterations entry.pos inside).length ≤ max n 1) ∧
      (times.min ≤ (span.iterations entry.pos inside).length ∨
        ∃ last, (span.iterations entry.pos inside).getLast? = some last ∧ last.isEmpty = true) ∧
      (span.iterations entry.pos inside = [] → inside = [] ∧ times.min = 0) := by
  have hp := Program.structured_of_compile hc
  refine ⟨fun limits start capture caps h => ?_, ?_⟩
  · obtain ⟨pos, fuel, o, hle, -, ho, hcaps, -⟩ := scan_some h
    obtain ⟨course, hcourse⟩ := ((m.maintains_onPaths pos).search .refl ho).exists_course
    exact ⟨pos, course, o, hle, hcourse, hcaps⟩
  · intro pos course o hcourse g span times entry inside exit hspan henter hvisit
    obtain ⟨hexit, ⟨rfl, hmin⟩ | hcompletes⟩ := visit_bounds hp hspan henter hcourse.moves hvisit
    · exact ⟨hexit, fun _ _ => Nat.zero_le _, .inl (Nat.le_of_eq hmin), fun _ => ⟨rfl, hmin⟩⟩
    · obtain ⟨hne, hmost, hleast⟩ := hcompletes
      simp only [Nat.zero_add] at hmost hleast
      exact ⟨hexit, fun n hn => hmost hn, hleast, fun hnone => absurd hnone hne⟩

def bounded : Pattern :=
  .group (.leaf (.char 'a') .once .done) (.between 1 2) (.leaf (.char 'b') .once .done)

def boundedIn : Matcher := matcherIn bounded ['a', 'a', 'b']

def boundedCourse : List Thread :=
  let start := boundedIn.startSlots 0
  let first := start.enter 1 0
  let second := first.restart 1 1
  let behind := second.finish 1 2
  [⟨0, 0, start⟩, ⟨1, 0, first⟩, ⟨2, 1, first⟩, ⟨1, 1, second⟩, ⟨2, 2, second⟩, ⟨3, 2, behind⟩,
    ⟨4, 3, behind⟩]

theorem moves_bounded : boundedCourse.IsChain boundedIn.Moves := by
  have henter : boundedIn.program.insts[0]? = some ⟨.enter 1, .between 1 2⟩ := by decide
  have ha : boundedIn.program.insts[1]? = some ⟨.consume (.literal 'a'), .once⟩ := by decide
  have hleave : boundedIn.program.insts[2]? = some ⟨.leave 1, .between 1 2⟩ := by decide
  have hb : boundedIn.program.insts[3]? = some ⟨.consume (.literal 'b'), .once⟩ := by decide
  have hspan : boundedIn.program.groups[1]? = some ⟨0, 2⟩ := by decide
  have hfirst : ((boundedIn.startSlots 0).enter 1 0)[1]? = some ⟨0, some 0, none⟩ := by decide
  have hsecond : (((boundedIn.startSlots 0).enter 1 0).restart 1 1)[1]? =
    some ⟨1, some 1, some 1⟩ := by decide
  refine .cons_cons (.enter henter) ?_
  refine .cons_cons (.consume ha (repeats_once.mpr (by decide))) ?_
  refine .cons_cons (.again hleave hfirst hspan (by decide) (by decide)) ?_
  refine .cons_cons (.consume ha (repeats_once.mpr (by decide))) ?_
  refine .cons_cons (.finish hleave (by decide) hsecond (by decide)) ?_
  exact .cons_cons (.consume hb (repeats_once.mpr (by decide))) (.singleton _)

theorem iterations_within_bounds_bounded :
    (∃ pos course o, 0 ≤ pos ∧ boundedIn.Course pos course o ∧
      (⟨[some ⟨0, 3⟩, some ⟨1, 2⟩]⟩ : Captures) = .ofSlots o.slots 2) ∧
    (⟨0, 2⟩ : GroupSpan).iterations 0 ((boundedCourse.drop 1).take 4) = [⟨0, 1⟩, ⟨1, 2⟩] ∧
      ((⟨0, 2⟩ : GroupSpan).iterations 0 ((boundedCourse.drop 1).take 4)).length ≤ max 2 1 := by
  have hc : Program.compile { dialect := .extended } .posix {}
      ['(', 'a', ')', '{', '1', ',', '2', '}', 'b'] = .ok boundedIn.program := by
    decide
  have hcourse : boundedIn.Course 0 boundedCourse ⟨3, _⟩ :=
    ⟨rfl, moves_bounded, _, rfl, ⟨.once, by decide⟩, rfl⟩
  have hvisit : (⟨0, 2⟩ : GroupSpan).Visit boundedCourse ⟨0, 0, _⟩ ((boundedCourse.drop 1).take 4)
      ⟨3, 2, _⟩ :=
    ⟨⟨[], [_], rfl⟩, rfl, by decide, by decide⟩
  obtain ⟨hmatches, hvisits⟩ := iterations_within_bounds hc
  obtain ⟨-, hmost, -, -⟩ := hvisits 0 boundedCourse _ hcourse 1 ⟨0, 2⟩ (.between 1 2) _ _ _
    (by decide) (by decide) hvisit
  exact ⟨hmatches {} 0 2 _ (by decide +kernel), by decide, hmost 2 rfl⟩

def forbidden : Pattern :=
  .group (.leaf (.char 'a') .once .done) (.between 0 0) (.leaf (.char 'b') .once .done)

def forbiddenIn : Matcher := matcherIn forbidden ['a', 'b']

def forbiddenCourse : List Thread :=
  let start := forbiddenIn.startSlots 0
  let inside := start.enter 1 0
  let behind := inside.finish 1 1
  [⟨0, 0, start⟩, ⟨1, 0, inside⟩, ⟨2, 1, inside⟩, ⟨3, 1, behind⟩, ⟨4, 2, behind⟩]

theorem moves_forbidden : forbiddenCourse.IsChain forbiddenIn.Moves := by
  have henter : forbiddenIn.program.insts[0]? = some ⟨.enter 1, .between 0 0⟩ := by decide
  have ha : forbiddenIn.program.insts[1]? = some ⟨.consume (.literal 'a'), .once⟩ := by decide
  have hleave : forbiddenIn.program.insts[2]? = some ⟨.leave 1, .between 0 0⟩ := by decide
  have hb : forbiddenIn.program.insts[3]? = some ⟨.consume (.literal 'b'), .once⟩ := by decide
  have hslot : ((forbiddenIn.startSlots 0).enter 1 0)[1]? = some ⟨0, some 0, none⟩ := by decide
  refine .cons_cons (.enter henter) ?_
  refine .cons_cons (.consume ha (repeats_once.mpr (by decide))) ?_
  refine .cons_cons (.finish hleave (by decide) hslot (by decide)) ?_
  exact .cons_cons (.consume hb (repeats_once.mpr (by decide))) (.singleton _)

/-- A group is entered even if its upper bound is zero, so that one iteration too many is made. -/
theorem not_iterations_within_bounds :
    Program.compile { dialect := .extended } .posix {} ['(', 'a', ')', '{', '0', '}', 'b'] =
        .ok forbiddenIn.program ∧
      forbiddenIn.execute {} 0 2 = .ok (some ⟨[some ⟨0, 2⟩, some ⟨0, 1⟩]⟩) ∧
      (∃ o, forbiddenIn.Course 0 forbiddenCourse o ∧
        (⟨[some ⟨0, 2⟩, some ⟨0, 1⟩]⟩ : Captures) = .ofSlots o.slots 2) ∧
      forbiddenIn.program.groups[1]? = some ⟨0, 2⟩ ∧
      forbiddenIn.program.insts[0]? = some ⟨.enter 1, .between 0 0⟩ ∧
      (∃ entry exit, entry.pos = 0 ∧ (⟨0, 2⟩ : GroupSpan).Visit forbiddenCourse entry
        ((forbiddenCourse.drop 1).take 2) exit) ∧
      (Repetition.between 0 0).max? = some 0 ∧
      ((⟨0, 2⟩ : GroupSpan).iterations 0 ((forbiddenCourse.drop 1).take 2)).length = 1 := by
  have hcourse : forbiddenIn.Course 0 forbiddenCourse ⟨2, _⟩ :=
    ⟨rfl, moves_forbidden, _, rfl, ⟨.once, by decide⟩, rfl⟩
  have hvisit : (⟨0, 2⟩ : GroupSpan).Visit forbiddenCourse ⟨0, 0, _⟩
      ((forbiddenCourse.drop 1).take 2) ⟨3, 1, _⟩ :=
    ⟨⟨[], [_], rfl⟩, rfl, by decide, by decide⟩
  exact ⟨by decide, by decide +kernel, ⟨_, hcourse, by decide⟩, by decide, by decide,
    ⟨_, _, rfl, hvisit⟩, rfl, by decide⟩

end Matcher

end PosixRegex
