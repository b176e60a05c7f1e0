import PosixRegex.Proofs.Search.Consume
import PosixRegex.Proofs.Search.Recursion

namespace PosixRegex

namespace Outcome

theorem further_eq_of_le {b : Outcome} {result : Option Outcome}
    (h : ∀ o, result = some o → o.stop ≤ b.stop) : further (some b) result = some b := by
  cases result with
  | none => rfl
  | some o =>
    have ho := h o rfl
    simp only [further, better, Option.some.injEq, ite_eq_right_iff]
    omega

theorem le_stop_of_further {best : Option Outcome} {o b : Outcome}
    (h : further best (some o) = some b) : o.stop ≤ b.stop := by
  cases best with
  | none =>
    obtain rfl : o = b := by simpa [further, better] using h
    exact Nat.le_refl _
  | some c =>
    simp only [further, better, Option.some.injEq] at h
    split at h
    · exact h ▸ Nat.le_refl _
    · subst h
      omega

theorem le_stop_of_further_left {b o : Outcome} {result : Option Outcome}
    (h : further (some b) result = some o) : b.stop ≤ o.stop := by
  cases result with
  | none =>
    obtain rfl : b = o := by simpa [further] using h
    exact Nat.le_refl _
  | some r =>
    simp only [further, better, Option.some.injEq] at h
    split at h
    · subst h
      omega
    · exact h ▸ Nat.le_refl _

@[simp] theorem further_none (result : Option Outcome) : further none result = result := by
  cases result <;> rfl

theorem further_assoc (a b c : Option Outcome) :
    further (further a b) c = further a (further b c) := by
  rcases a with _ | a <;> rcases b with _ | b <;> rcases c with _ | c <;>
    simp only [further, better]
  split <;> split <;> grind

theorem further_eq_some {best result : Option Outcome} {o : Outcome}
    (h : further best result = some o) : best = some o ∨ result = some o := by
  cases result with
  | none => exact Or.inl h
  | some r =>
    cases best with
    | none => exact Or.inr h
    | some b =>
      simp only [further, better, Option.some.injEq] at h
      split at h
      · exact Or.inr (congrArg some h)
      · exact Or.inl (congrArg some h)

end Outcome

namespace Matcher

variable {m : Matcher}

def Bounded (m : Matcher) (pos : Nat) (result : Option Outcome) : Prop :=
  ∀ o, result = some o → pos ≤ o.stop ∧ o.stop ≤ max pos m.subject.size

theorem bounded_none (m : Matcher) (pos : Nat) : m.Bounded pos none := by
  intro o ho
  cases ho

theorem bounded_of_pure_none {pos : Nat} {r : Option Outcome}
    (h : (pure none : Option (Option Outcome)) = some r) : m.Bounded pos r := by
  obtain rfl : none = r := by simpa using h
  exact bounded_none m pos

theorem bounded_of_orElse {pos : Nat} {first r : Option Outcome} {b : Option (Option Outcome)}
    (h : (match first with | some o => pure (some o) | none => b) = some r)
    (hfirst : m.Bounded pos first) (hb : ∀ r, b = some r → m.Bounded pos r) :
    m.Bounded pos r := by
  cases first with
  | none => exact hb r h
  | some o =>
    obtain rfl : some o = r := by simpa using h
    exact hfirst

theorem Bounded.of_consume {what : Consumer} {pos next : Nat} {slots : Slots}
    {result : Option Outcome} (hc : m.consume what pos slots = some next)
    (h : m.Bounded next result) : m.Bounded pos result := by
  intro o ho
  have hb := consume_bounds hc
  have hn := h o ho
  omega

theorem play_bounds (m : Matcher) :
    (∀ t r, m.play t = some r → m.Bounded t.pos r) ∧
    (∀ t what times count r, m.playCounts t what times count = some r → m.Bounded t.pos r) ∧
    (∀ marker pos slots best r, m.playBranches marker pos slots best = some r →
      (m.Bounded pos best → m.Bounded pos r) ∧
      (∀ b, best = some b → pos ≤ m.subject.size → m.subject.size ≤ b.stop → r = best)) := by
  apply plays_induction
  intro self hplay hcounts hbranches
  refine ⟨?_, ?_, ?_⟩
  -- One instruction of each kind, where what is played from its place on keeps within bounds.
  · intro t r h
    have hat : ∀ pc slots r, self.thread ⟨pc, t.pos, slots⟩ = some r → m.Bounded t.pos r :=
      fun pc slots r hr => hplay ⟨pc, t.pos, slots⟩ r hr
    obtain ⟨i, -, h⟩ := Option.bind_eq_some_iff.mp h
    split at h
    · obtain ⟨slot, -, h⟩ := Option.bind_eq_some_iff.mp h
      obtain rfl : some _ = r := by simpa using h
      rintro o ⟨rfl⟩
      exact ⟨Nat.le_refl _, Nat.le_max_left _ _⟩
    · obtain ⟨slot, -, h⟩ := Option.bind_eq_some_iff.mp h
      obtain ⟨span, -, h⟩ := Option.bind_eq_some_iff.mp h
      obtain ⟨inner, hin, h⟩ := Option.bind_eq_some_iff.mp h
      refine bounded_of_orElse h (hat _ _ inner hin) (fun r hr => ?_)
      split at hr
      · exact hat _ _ r hr
      · exact bounded_of_pure_none hr
    · obtain ⟨slot, -, h⟩ := Option.bind_eq_some_iff.mp h
      obtain ⟨span, -, h⟩ := Option.bind_eq_some_iff.mp h
      split at h
      · exact hat _ _ r h
      · split at h
        · split at h
          · exact bounded_of_pure_none h
          · exact hat _ _ r h
        · split at h
          · obtain ⟨inner, hin, h⟩ := Option.bind_eq_some_iff.mp h
            refine bounded_of_orElse h (hat _ _ inner hin) (fun r hr => ?_)
            split at hr
            · exact hat _ _ r hr
            · exact bounded_of_pure_none hr
          · exact hat _ _ r h
    · exact hat _ _ r h
    · exact (hbranches _ _ _ _ r h).1 (bounded_none m _)
    · obtain ⟨span, -, h⟩ := Option.bind_eq_some_iff.mp h
      exact hat _ _ r h
    · split at h
      · exact hat _ _ r h
      · exact bounded_of_pure_none h
    · exact hcounts _ _ _ _ r h
  -- Another repetition of a consumer, or what follows it.
  · intro t what times count r h
    have hnext : ∀ r, self.thread t.next = some r → m.Bounded t.pos r :=
      fun r hr => hplay t.next r hr
    unfold playRepeated at h
    split at h
    · split at h
      · exact bounded_of_pure_none h
      · exact hnext r h
    · rename_i pos hpos
      have hmore : ∀ r, self.counts { t with pos } what times (count + 1) = some r →
          m.Bounded t.pos r := fun r hr => (hcounts _ _ _ _ r hr).of_consume hpos
      split at h
      · exact hmore r h
      · split at h
        · obtain ⟨inner, hin, h⟩ := Option.bind_eq_some_iff.mp h
          exact bounded_of_orElse h (hmore inner hin) hnext
        · exact hnext r h
  -- A branch, whose outcome is kept only if it ends behind the best one so far.
  · intro marker pos slots best r h
    obtain ⟨inner, hin, h⟩ := Option.bind_eq_some_iff.mp h
    have hinner : m.Bounded pos inner := hplay ⟨marker + 1, pos, slots⟩ inner hin
    have hfar : m.Bounded pos best → m.Bounded pos (Outcome.further best inner) := by
      intro hbest o ho
      exact (Outcome.further_eq_some ho).elim (hbest o) (hinner o)
    have hkeep : ∀ b, best = some b → pos ≤ m.subject.size → m.subject.size ≤ b.stop →
        Outcome.further best inner = best := by
      rintro b rfl hpos hb
      apply Outcome.further_eq_of_le
      intro o ho
      have := hinner o ho
      omega
    split at h
    · cases h
    · obtain rfl : Outcome.further best inner = r := by simpa using h
      exact ⟨hfar, hkeep⟩
    · obtain ⟨hb, hk⟩ := hbranches _ _ _ _ r h
      refine ⟨fun hbest => hb (hfar hbest), fun b hbest hpos hsize => ?_⟩
      have hsame := hkeep b hbest hpos hsize
      exact (hk b (hsame.trans hbest) hpos hsize).trans hsame

/-- What the recursion makes of the end of a path for which a checkpoint waits. -/
noncomputable def pending (m : Matcher) (result : Option Outcome) : Checkpoint → Option (Option Outcome)
  | .retry _ resume slots stop earlier _ =>
    firstOf (some result) (m.playStops resume slots (stop :: earlier))
  | .longest marker pos slots best =>
    m.playFollowing marker pos slots (Outcome.further best result)

/-- What the recursion makes of the end of a path, with all of its callers. -/
noncomputable def pendingAll (m : Matcher) (result : Option Outcome) : List Checkpoint → Option (Option Outcome)
  | [] => some result
  | k :: items => (m.pending result k).bind (m.pendingAll · items)

theorem pendingAll_singleton (m : Matcher) (result : Option Outcome) (k : Checkpoint) :
    m.pendingAll result [k] = m.pending result k := by
  simp [pendingAll]

noncomputable def playConfig (m : Matcher) : Config → Option (Option Outcome)
  | .ready t => m.play t
  | .repeating t what times count stops =>
    firstOf (m.playCounts t what times count) (m.playStops (t.pc + 1) t.slots stops)

noncomputable def playAction (m : Matcher) : Action → Option (Option Outcome)
  | .go c => m.playConfig c
  | .choose k c => (m.playConfig c).bind (m.pending · k)
  | .stop result => some result
  | .abort .anchorViolation => some none
  | .abort (.error _) => none

theorem bind_pending_retry (m : Matcher) (a : Option (Option Outcome)) (pc resume : Nat)
    (slots : Slots) (stop : Nat) (earlier : List Nat) (last : Nat) :
    a.bind (m.pending · (.retry pc resume slots stop earlier last)) =
      firstOf a (m.playStops resume slots (stop :: earlier)) := by
  rcases a with _ | _ | o <;> rfl

theorem bind_pending_retry_nil (m : Matcher) (a : Option (Option Outcome)) (pc resume : Nat)
    (slots : Slots) (stop last : Nat) :
    a.bind (m.pending · (.retry pc resume slots stop [] last)) =
      firstOf a (m.play ⟨resume, stop, slots⟩) := by
  rw [bind_pending_retry, playStops, playStops, firstOf_fail]

theorem playAction_endRepeat (m : Matcher) (t : Thread) (stops : List Nat) :
    m.playAction (endRepeat t stops) =
      firstOf (m.play t.next) (m.playStops (t.pc + 1) t.slots stops) := by
  cases stops with
  | nil => exact (firstOf_fail _).symm
  | cons stop earlier => exact bind_pending_retry m _ _ _ _ _ _ _

theorem playCounts_eq_of_full {t : Thread} {what : Consumer} {times : Repetition} {count : Nat}
    (hmin : times.min ≤ count) (hmax : times.belowMax count = false) :
    m.playCounts t what times count = m.play t.next := by
  rw [playCounts_eq]
  split
  · rw [if_neg (by omega)]
  · rw [if_neg (by omega), if_neg (by simp [hmax])]

theorem playAction_continueRepeat (m : Matcher) (t : Thread) (what : Consumer)
    (times : Repetition) (count : Nat) (stops : List Nat) :
    m.playAction (continueRepeat t what times count stops) =
      firstOf (m.playCounts t what times count) (m.playStops (t.pc + 1) t.slots stops) := by
  unfold continueRepeat
  split
  · rename_i h
    rw [playAction_endRepeat, playCounts_eq_of_full h.1 (by simpa using h.2)]
  · rfl

/-- The places that a search from `s` can reach. -/
def Within (m : Matcher) (s pos : Nat) : Prop := s ≤ pos ∧ pos ≤ max s m.subject.size

/-- What holds whenever a step is about to be made. A repetition keeps shorter counts only when it
has all that it needs, and goes on only where there is room. -/
def Tracks (m : Matcher) (s : Nat) : Config → Prop
  | .ready t => m.Within s t.pos
  | .repeating t _ times count stops =>
    m.Within s t.pos ∧ (∀ stop ∈ stops, m.Within s stop) ∧
      (count < times.min → stops = []) ∧ (times.min ≤ count → times.belowMax count = true)

def Keeps (m : Matcher) (s : Nat) : Checkpoint → Prop
  | .retry _ resume _ stop earlier _ => resume ≠ 0 ∧ ∀ p ∈ stop :: earlier, m.Within s p
  | .longest _ pos _ best => m.Within s pos ∧ ∀ o, best = some o → m.Within s o.stop

def AtStart : Config → Prop
  | .ready t => t.pc = 0
  | .repeating .. => False

theorem Within.of_consume {s pos next : Nat} {what : Consumer} {slots : Slots}
    (hp : m.Within s pos) (h : m.consume what pos slots = some next) : m.Within s next := by
  have hb := consume_bounds h
  unfold Within at hp ⊢
  omega

theorem slot_of_play_accept {t : Thread} {times : Repetition} {r : Option Outcome}
    (hi : m.program.insts[t.pc]? = some ⟨.accept, times⟩) (h : m.play t = some r) :
    ∃ slot, t.slots[0]? = some slot := by
  rw [play_eq, playThread, hi] at h
  obtain ⟨_, ⟨⟩, h⟩ := Option.bind_eq_some_iff.mp h
  obtain ⟨slot, hs, -⟩ := Option.bind_eq_some_iff.mp h
  exact ⟨slot, hs⟩

theorem slot_of_play_enter {t : Thread} {g : Nat} {times : Repetition} {r : Option Outcome}
    (hi : m.program.insts[t.pc]? = some ⟨.enter g, times⟩) (h : m.play t = some r) :
    ∃ slot span, t.slots[g]? = some slot ∧ m.program.groups[g]? = some span := by
  rw [play_eq, playThread, hi] at h
  obtain ⟨_, ⟨⟩, h⟩ := Option.bind_eq_some_iff.mp h
  obtain ⟨slot, hs, h⟩ := Option.bind_eq_some_iff.mp h
  obtain ⟨span, hg, -⟩ := Option.bind_eq_some_iff.mp h
  exact ⟨slot, span, hs, hg⟩

theorem slot_of_play_leave {t : Thread} {g : Nat} {times : Repetition} {r : Option Outcome}
    (hi : m.program.insts[t.pc]? = some ⟨.leave g, times⟩) (h : m.play t = some r) :
    ∃ slot span, t.slots[g]? = some slot ∧ m.program.groups[g]? = some span := by
  rw [play_eq, playThread, hi] at h
  obtain ⟨_, ⟨⟩, h⟩ := Option.bind_eq_some_iff.mp h
  obtain ⟨slot, hs, h⟩ := Option.bind_eq_some_iff.mp h
  obtain ⟨span, hg, -⟩ := Option.bind_eq_some_iff.mp h
  exact ⟨slot, span, hs, hg⟩

theorem span_of_play_join {t : Thread} {g : Nat} {times : Repetition} {r : Option Outcome}
    (hi : m.program.insts[t.pc]? = some ⟨.join g, times⟩) (h : m.play t = some r) :
    ∃ span, m.program.groups[g]? = some span := by
  rw [play_eq, playThread, hi] at h
  obtain ⟨_, ⟨⟩, h⟩ := Option.bind_eq_some_iff.mp h
  obtain ⟨span, hg, -⟩ := Option.bind_eq_some_iff.mp h
  exact ⟨span, hg⟩

theorem playAction_enter {t : Thread} {g : Nat} {times : Repetition} {slot : Slot}
    {span : GroupSpan} (hi : m.program.insts[t.pc]? = some ⟨.enter g, times⟩)
    (hs : t.slots[g]? = some slot) (hg : m.program.groups[g]? = some span) :
    m.playAction (m.enter t g times) = m.play t := by
  have he := Slots.setIfInBounds_eq_modify hs fun slot => ⟨0, some t.pos, slot.stop⟩
  have hk := Slots.setIfInBounds_eq_modify hs fun slot => ⟨slot.count, none, none⟩
  rw [play_enter hi hs hg]
  simp only [enter, hs, hg, he, hk]
  split
  · exact bind_pending_retry_nil m _ _ _ _ _ _
  · exact (firstOf_fail _).symm

theorem playAction_leave {t : Thread} {g : Nat} {times : Repetition} {slot : Slot}
    {span : GroupSpan} (hi : m.program.insts[t.pc]? = some ⟨.leave g, times⟩)
    (hs : t.slots[g]? = some slot) (hg : m.program.groups[g]? = some span) :
    m.playAction (m.leave t g times) = m.play t := by
  have hc := Slots.setIfInBounds_eq_modify hs fun slot => { slot with stop := some t.pos }
  have hf := Slots.setIfInBounds_eq_modify hs fun slot => ⟨slot.count + 1, slot.start, some t.pos⟩
  have hr := Slots.setIfInBounds_eq_modify hs
    fun slot => ⟨slot.count + 1, some t.pos, some t.pos⟩
  by_cases ho : times = .once
  · subst ho
    rw [play_leave_once hi hs hg]
    simp only [leave, hs, hg, hc]
    rfl
  · rw [play_leave hi ho hs hg]
    simp only [leave, hs, hg, hf, hr, Repetition.isOnce, beq_iff_eq, ho, if_false]
    by_cases he : slot.start = some t.pos
    · by_cases hn : max times.min 1 ≤ slot.count
      · simp only [he, hn, and_self, if_true]
        rfl
      · simp only [he, hn, and_false, true_or, if_true, if_false]
        rfl
    · by_cases hb : times.belowMax (slot.count + 1)
      · simp only [he, hb, false_and, Bool.not_true, Bool.false_eq_true, or_self, if_true,
          if_false]
        split
        · exact bind_pending_retry_nil m _ _ _ _ _ _
        · exact (firstOf_fail _).symm
      · simp only [he, hb, false_and, Bool.not_false, or_true, Bool.false_eq_true, if_true,
          if_false]
        rfl

theorem playAction_exec {t : Thread} {i : Inst} {r : Option Outcome}
    (hi : m.program.insts[t.pc]? = some i) (h : m.play t = some r) :
    m.playAction (m.exec t i) = some r := by
  obtain ⟨atom, times⟩ := i
  cases atom with
  | accept =>
    obtain ⟨slot, hs⟩ := slot_of_play_accept hi h
    have hc := Slots.setIfInBounds_eq_modify hs fun slot => { slot with stop := some t.pos }
    rw [← h, play_accept hi hs]
    simp only [exec, hs, hc]
    rfl
  | enter g =>
    obtain ⟨slot, span, hs, hg⟩ := slot_of_play_enter hi h
    exact (playAction_enter hi hs hg).trans h
  | leave g =>
    obtain ⟨slot, span, hs, hg⟩ := slot_of_play_leave hi h
    exact (playAction_leave hi hs hg).trans h
  | branch next =>
    cases next with
    | zero => exact (play_branch_zero hi).symm.trans h
    | succ next =>
      rw [play_branch hi, playBranches_eq] at h
      exact h
  | join g =>
    obtain ⟨span, hg⟩ := span_of_play_join hi h
    rw [← h, play_join hi hg]
    simp only [exec, hg]
    rfl
  | assert what =>
    rw [← h, play_assert hi]
    simp only [exec]
    split
    · rfl
    · split <;> rfl
  | consume what =>
    rw [play_consume hi] at h
    simp only [exec]
    split
    · rename_i ho
      obtain rfl : times = .once := by simpa [Repetition.isOnce] using ho
      rw [← h, playCounts_eq]
      cases m.consume what t.pos t.slots with
      | none => rfl
      | some pos =>
        have hfull : Repetition.belowMax .once 1 = false := rfl
        have hend : m.playCounts ⟨t.pc, pos, t.slots⟩ what .once 1 =
            m.play ⟨t.pc + 1, pos, t.slots⟩ := playCounts_eq_of_full (Nat.le_refl 1) hfull
        exact hend.symm
    · rw [playAction_continueRepeat]
      exact (firstOf_fail _).trans h

theorem playAction_repeatOnce {s : Nat} {t : Thread} {what : Consumer} {times : Repetition}
    {count : Nat} {stops : List Nat} (hc : m.Tracks s (.repeating t what times count stops)) :
    m.playAction (m.repeatOnce t what times count stops) =
      firstOf (m.playCounts t what times count) (m.playStops (t.pc + 1) t.slots stops) := by
  obtain ⟨-, -, hstops, hroom⟩ := hc
  rw [playCounts_eq, repeatOnce]
  cases m.consume what t.pos t.slots with
  | none =>
    by_cases hmin : count < times.min
    · simp only [hmin, if_true, hstops hmin]
      rfl
    · simp only [hmin, if_false, playAction_endRepeat]
  | some pos =>
    by_cases hmin : count < times.min
    · simp only [hmin, if_true, playAction_continueRepeat, hstops hmin]
    · by_cases hpos : t.pos < pos
      · simp only [hmin, hpos, hroom (by omega), and_self, if_true, if_false,
          playAction_continueRepeat, firstOf_assoc]
        rfl
      · simp only [hmin, hpos, and_false, if_false, playAction_endRepeat]

theorem playAction_step {s : Nat} {c : Config} {r : Option Outcome} (hc : m.Tracks s c)
    (h : m.playConfig c = some r) : m.playAction (m.step c) = some r := by
  cases c with
  | ready t =>
    rw [playConfig] at h
    simp only [step]
    cases hi : m.program.insts[t.pc]? with
    | none =>
      rw [play_eq, playThread, hi] at h
      cases h
    | some i => exact playAction_exec hi h
  | repeating t what times count stops => exact (playAction_repeatOnce hc).trans h

/-- No group ends at the first instruction, so that the end of an alternative does not lead back
to it. -/
def JoinsForward (p : Program) : Prop :=
  ∀ (pc g : Nat) (times : Repetition) (span : GroupSpan),
    p.insts[pc]? = some ⟨.join g, times⟩ → p.groups[g]? = some span → span.stop ≠ 0

/-- What holds after a step from `c`. -/
def Tracked (m : Matcher) (s : Nat) (c : Config) : Action → Prop
  | .go c => m.Tracks s c ∧ ¬AtStart c
  | .choose k c => m.Keeps s k ∧ m.Tracks s c ∧ ¬AtStart c
  | .stop result => ∀ o, result = some o → m.Within s o.stop
  | .abort .anchorViolation => AtStart c
  | .abort (.error _) => True

theorem tracked_endRepeat {s : Nat} {c : Config} {t : Thread} {stops : List Nat}
    (ht : m.Within s t.pos) (hs : ∀ stop ∈ stops, m.Within s stop) :
    m.Tracked s c (endRepeat t stops) := by
  cases stops with
  | nil => exact ⟨ht, Nat.succ_ne_zero _⟩
  | cons stop earlier => exact ⟨⟨Nat.succ_ne_zero _, hs⟩, ht, Nat.succ_ne_zero _⟩

theorem tracked_continueRepeat {s : Nat} {c : Config} {t : Thread} {what : Consumer}
    {times : Repetition} {count : Nat} {stops : List Nat} (ht : m.Within s t.pos)
    (hs : ∀ stop ∈ stops, m.Within s stop) (hc : count < times.min → stops = []) :
    m.Tracked s c (continueRepeat t what times count stops) := by
  unfold continueRepeat
  split
  · exact tracked_endRepeat ht hs
  · rename_i h
    exact ⟨⟨ht, hs, hc, by simpa using h⟩, id⟩

theorem tracked_repeatOnce {s : Nat} {t : Thread} {what : Consumer} {times : Repetition}
    {count : Nat} {stops : List Nat} (hc : m.Tracks s (.repeating t what times count stops)) :
    m.Tracked s (.repeating t what times count stops) (m.repeatOnce t what times count stops) := by
  obtain ⟨ht, hs, -, -⟩ := hc
  unfold repeatOnce
  split
  · rename_i pos hpos
    have hnext := ht.of_consume hpos
    split
    · exact tracked_continueRepeat hnext (by simp) (fun _ => rfl)
    · split
      · exact tracked_continueRepeat hnext (by simpa using ⟨ht, hs⟩) (fun h => by omega)
      · exact tracked_endRepeat ht hs
  · split
    · exact fun o ho => nomatch ho
    · exact tracked_endRepeat ht hs

theorem tracked_exec {s : Nat} {t : Thread} {i : Inst} (hp : JoinsForward m.program)
    (hi : m.program.insts[t.pc]? = some i) (ht : m.Within s t.pos) :
    m.Tracked s (.ready t) (m.exec t i) := by
  obtain ⟨atom, times⟩ := i
  have hnext : m.Tracked s (.ready t) (.go (.ready t.next)) := ⟨ht, Nat.succ_ne_zero _⟩
  cases atom with
  | accept =>
    simp only [exec]
    split
    · trivial
    · rintro o ⟨rfl⟩
      exact ht
  | enter g =>
    simp only [exec, enter]
    split
    · split
      · exact ⟨⟨Nat.succ_ne_zero _, by simpa using ht⟩, ht, Nat.succ_ne_zero _⟩
      · exact ⟨ht, Nat.succ_ne_zero _⟩
    · trivial
  | leave g =>
    simp only [exec, leave]
    split
    · split
      · exact ⟨ht, Nat.succ_ne_zero _⟩
      · split
        · exact fun o ho => nomatch ho
        · split
          · exact ⟨ht, Nat.succ_ne_zero _⟩
          · split
            · exact ⟨⟨Nat.succ_ne_zero _, by simpa using ht⟩, ht, Nat.succ_ne_zero _⟩
            · exact ⟨ht, Nat.succ_ne_zero _⟩
    · trivial
  | branch next =>
    cases next with
    | zero => exact hnext
    | succ next => exact ⟨⟨ht, fun o ho => nomatch ho⟩, hnext⟩
  | join g =>
    simp only [exec]
    split
    · trivial
    · rename_i span hg
      exact ⟨ht, hp t.pc g times span hi hg⟩
  | assert what =>
    simp only [exec]
    split
    · exact hnext
    · split
      · rename_i h
        exact h.2.1
      · exact fun o ho => nomatch ho
  | consume what =>
    simp only [exec]
    split
    · split
      · exact fun o ho => nomatch ho
      · rename_i pos hpos
        exact ⟨ht.of_consume hpos, Nat.succ_ne_zero _⟩
    · exact tracked_continueRepeat ht (by simp) (fun _ => rfl)

theorem tracked_step {s : Nat} {c : Config} (hp : JoinsForward m.program) (hc : m.Tracks s c) :
    m.Tracked s c (m.step c) := by
  cases c with
  | ready t =>
    simp only [step]
    cases hi : m.program.insts[t.pc]? with
    | none => trivial
    | some i => exact tracked_exec hp hi hc
  | repeating t what times count stops => exact tracked_repeatOnce hc

/-- What holds of the answer of a checkpoint, where the recursion finds `value`. -/
def Settled (m : Matcher) (s : Nat) (value : Option Outcome) : Verdict → Prop
  | .answer result => result = value ∧ ∀ o, result = some o → m.Within s o.stop
  | .resume t again =>
    (m.play t).bind (m.pendingAll · again.toList) = some value ∧ m.Within s t.pos ∧ t.pc ≠ 0 ∧
      ∀ k ∈ again, m.Keeps s k
  | .abort _ => False

theorem settled_retry {s pc resume stop last : Nat} {slots : Slots} {earlier : List Nat}
    {result value : Option Outcome} (hk : m.Keeps s (.retry pc resume slots stop earlier last))
    (hr : ∀ o, result = some o → m.Within s o.stop)
    (hv : m.pending result (.retry pc resume slots stop earlier last) = some value) :
    m.Settled s value (m.settle result (.retry pc resume slots stop earlier last)) := by
  obtain ⟨hresume, hstops⟩ := hk
  cases result with
  | some o => exact ⟨by simpa [pending] using hv, hr⟩
  | none =>
    have hplay : firstOf (m.play ⟨resume, stop, slots⟩) (m.playStops resume slots earlier) =
        some value := hv
    have hstop := hstops stop (by simp)
    cases earlier with
    | nil =>
      rw [playStops, firstOf_fail] at hplay
      refine ⟨?_, hstop, hresume, by simp⟩
      change (m.play ⟨resume, stop, slots⟩).bind some = some value
      rw [hplay]
      rfl
    | cons next others =>
      refine ⟨?_, hstop, hresume, ?_⟩
      · rw [← hplay, ← bind_pending_retry m _ pc resume slots next others stop]
        simp only [Option.toList_some, pendingAll_singleton]
      · rintro k ⟨rfl⟩
        exact ⟨hresume, fun p hp => hstops p (by simp [hp])⟩

theorem playFollowing_eq_of_conclusive {marker pos : Nat} {slots : Slots} {b : Outcome}
    {value : Option Outcome} (hpos : pos ≤ m.subject.size) (hb : m.subject.size ≤ b.stop)
    (h : m.playFollowing marker pos slots (some b) = some value) : value = some b := by
  unfold playFollowing at h
  split at h
  · cases h
  · exact (Option.some.inj h).symm
  · exact ((m.play_bounds.2.2 _ _ _ _ _ h).2 b rfl hpos hb)

theorem settle_longest_eq (m : Matcher) (marker pos : Nat) (slots : Slots)
    (best result : Option Outcome) :
    m.settle result (.longest marker pos slots best) =
      if result.any (·.stop == m.subject.size) then .answer (Outcome.further best result)
      else
        match m.nextBranch marker with
        | .error e => .abort (.error e)
        | .ok none => .answer (Outcome.further best result)
        | .ok (some following) =>
          .resume ⟨following + 1, pos, slots⟩
            (some (.longest following pos slots (Outcome.further best result))) := rfl

theorem settled_longest {s marker pos : Nat} {slots : Slots} {best result value : Option Outcome}
    (hk : m.Keeps s (.longest marker pos slots best))
    (hr : ∀ o, result = some o → m.Within s o.stop)
    (hv : m.pending result (.longest marker pos slots best) = some value) :
    m.Settled s value (m.settle result (.longest marker pos slots best)) := by
  obtain ⟨hpos, hbest⟩ := hk
  have hfar : ∀ o, Outcome.further best result = some o → m.Within s o.stop :=
    fun o ho => (Outcome.further_eq_some ho).elim (hbest o) (hr o)
  simp only [pending] at hv
  rw [settle_longest_eq]
  split
  · rename_i hend
    refine ⟨?_, hfar⟩
    obtain ⟨o, rfl, hstop⟩ : ∃ o, result = some o ∧ o.stop = m.subject.size := by
      simpa [Option.any_eq_true] using hend
    obtain ⟨b, hb⟩ : ∃ b, Outcome.further best (some o) = some b := ⟨_, rfl⟩
    have hle := Outcome.le_stop_of_further hb
    have ho := hr o rfl
    unfold Within at hpos ho
    rw [hb] at hv
    rw [hb, playFollowing_eq_of_conclusive (by omega) (by omega) hv]
  · unfold playFollowing at hv
    split
    · rename_i e he
      rw [he] at hv
      cases hv
    · rename_i he
      rw [he] at hv
      exact ⟨Option.some.inj hv, hfar⟩
    · rename_i following he
      rw [he] at hv
      refine ⟨?_, hpos, Nat.succ_ne_zero _, ?_⟩
      · change m.playBranches following pos slots _ = some value at hv
        rw [playBranches_eq] at hv
        simpa only [Option.toList_some, pendingAll_singleton, pending] using hv
      · rintro k ⟨rfl⟩
        exact ⟨hpos, hfar⟩

/-- What holds of a search after a path has ended, where the recursion finds `value`. -/
def Resumes (m : Matcher) (s : Nat) (value : Option Outcome) : Unwound → Prop
  | .finished result => result = value
  | .resume t stack =>
    (m.play t).bind (m.pendingAll · stack.items) = some value ∧ m.Within s t.pos ∧ t.pc ≠ 0 ∧
      ∀ k ∈ stack.items, m.Keeps s k
  | .abort _ => False

theorem pendingAll_append (m : Matcher) (result : Option Outcome) (ks items : List Checkpoint) :
    m.pendingAll result (ks ++ items) = (m.pendingAll result ks).bind (m.pendingAll · items) := by
  induction ks generalizing result with
  | nil => rfl
  | cons k ks ih =>
    simp only [List.cons_append, pendingAll, Option.bind_assoc, ih]

theorem resumes_unwind {s : Nat} {value : Option Outcome} {items : List Checkpoint} {size : Nat}
    (hsize : size = items.length) {result : Option Outcome} (hk : ∀ k ∈ items, m.Keeps s k)
    (hr : ∀ o, result = some o → m.Within s o.stop)
    (hv : m.pendingAll result items = some value) :
    m.Resumes s value (m.unwind items size hsize result) := by
  induction items generalizing size result with
  | nil => exact Option.some.inj hv
  | cons k items ih =>
    obtain ⟨inner, hin, hv⟩ := Option.bind_eq_some_iff.mp hv
    have hitems : ∀ k ∈ items, m.Keeps s k := fun k' h => hk k' (by simp [h])
    have hset : m.Settled s inner (m.settle result k) := by
      cases k with
      | retry => exact settled_retry (hk _ (by simp)) hr hin
      | longest => exact settled_longest (hk _ (by simp)) hr hin
    unfold unwind
    generalize m.settle result k = verdict at hset
    cases verdict with
    | answer r =>
      obtain ⟨rfl, hr⟩ := hset
      exact ih _ hitems hr hv
    | resume t again =>
      obtain ⟨hplay, ht, hpc, hagain⟩ := hset
      have hall : (m.play t).bind (m.pendingAll · (again.toList ++ items)) = some value := by
        simp only [pendingAll_append, ← Option.bind_assoc, hplay, Option.bind_some, hv]
      cases again with
      | none => exact ⟨hall, ht, hpc, hitems⟩
      | some k => exact ⟨hall, ht, hpc, by simpa using ⟨hagain k rfl, hitems⟩⟩
    | abort why => exact hset

end Matcher

/-- What a search that met no error has found. After the violation of an anchor there is nothing
to be found. -/
def Ended.answer? (e : Ended) : Option (Option Outcome) :=
  match e.result with
  | .ok result => some result
  | .error .anchorViolation => some none
  | .error (.error _) => none

def Ended.hitsLimit (e : Ended) : Bool :=
  match e.result with
  | .error (.error (.fuelExhausted _)) | .error (.error (.recursionLimit _)) => true
  | _ => false

namespace Matcher

variable {m : Matcher}

/-- A run answers what the recursion finds for the running path and its callers. -/
theorem run_answer {limits : SearchLimits} {s fuel : Nat} {c : Config} {stack : Stack}
    {value : Option Outcome} (hp : JoinsForward m.program) (hc : m.Tracks s c)
    (hk : ∀ k ∈ stack.items, m.Keeps s k) (hstart : AtStart c → stack.items = [])
    (hv : (m.playConfig c).bind (m.pendingAll · stack.items) = some value)
    (hlimit : (m.run limits fuel c stack).hitsLimit = false) :
    (m.run limits fuel c stack).answer? = some value := by
  induction fuel generalizing c stack with
  | zero => cases hlimit
  | succ fuel ih =>
    obtain ⟨inner, hin, hv⟩ := Option.bind_eq_some_iff.mp hv
    have hact := playAction_step hc hin
    have htrack := tracked_step hp hc
    unfold run at hlimit ⊢
    generalize m.step c = action at hact htrack hlimit
    cases action with
    | go c =>
      obtain ⟨hc, hs⟩ := htrack
      refine ih hc hk (fun h => absurd h hs) ?_ hlimit
      rw [show m.playConfig c = some inner from hact]
      exact hv
    | choose k c =>
      obtain ⟨hkeep, hc, hs⟩ := htrack
      simp only at hlimit ⊢
      split at hlimit
      · cases hlimit
      · rename_i hfree
        rw [if_neg hfree]
        refine ih hc (by simpa [Stack.push] using ⟨hkeep, hk⟩) (fun h => absurd h hs) ?_ hlimit
        simp only [Stack.push, pendingAll, ← Option.bind_assoc]
        rw [show (m.playConfig c).bind (m.pending · k) = some inner from hact]
        exact hv
    | stop result =>
      obtain rfl : result = inner := Option.some.inj hact
      have hres := resumes_unwind stack.size_eq hk htrack hv
      simp only at hlimit ⊢
      generalize m.unwind stack.items stack.size stack.size_eq result = unwound at hres hlimit
      cases unwound with
      | finished r => exact congrArg some hres
      | resume t stack =>
        obtain ⟨hplay, ht, hpc, hk⟩ := hres
        exact ih ht hk (fun h => absurd h hpc) hplay hlimit
      | abort why => exact hres.elim
    | abort why =>
      cases why with
      | anchorViolation =>
        obtain rfl : none = inner := Option.some.inj hact
        rw [hstart htrack] at hv
        exact hv
      | error e => cases hact

end Matcher

end PosixRegex
