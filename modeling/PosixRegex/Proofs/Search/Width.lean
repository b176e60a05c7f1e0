import PosixRegex.Proofs.Search.Counts
import PosixRegex.Proofs.Search.Opening

namespace PosixRegex

namespace Matcher

variable {m : Matcher} {t : Target} {part : Part} {s s' : Place} {pos next : Nat} {slots : Slots}
  {what : Leaf} {times : Repetition}

theorem spans_of_repeats {count : Nat} (hsingle : what.isBackRef = false)
    (hfix : times.isFixed = true) (h : m.Repeats (t.consumer what) times slots count pos next) :
    m.subject.Spans (times.min - count) pos next := by
  obtain ⟨p, hp⟩ := consume_of_isSingle m (isSingle_consumer (t := t) hsingle)
  induction h with
  | stop hmin =>
    rw [Nat.sub_eq_zero_of_le hmin]
    exact Subject.spans_zero
  | @need count pos mid next hmin hc _ ih =>
    rw [hp] at hc
    have hspans := (Subject.spans_of_accept hc).append ih
    rwa [show 1 + (times.min - (count + 1)) = times.min - count by omega] at hspans
  | more hmin hmax =>
    exact absurd (Repetition.lt_min_of_isFixed hfix hmax) (Nat.not_lt.mpr hmin)

/-- The walk can be made whatever the groups hold. -/
def Free (m : Matcher) (t : Target) (part : Part) (s s' : Place) : Prop :=
  ∀ slots, ∃ slots', m.Walk t part ⟨s.pos, slots⟩ ⟨s'.pos, slots'⟩

/-- How long a walk through a part is, if all texts of the part have the same length. -/
def Level (m : Matcher) (t : Target) : Part → Place → Place → Prop
  | .seq p n, s, s' => ∀ ⦃i k⦄, p.width? i = some k →
      (∃ j, k = i + j ∧ m.subject.Spans j s.pos s'.pos) ∧ m.Free t (.seq p n) s s'
  | .alts p n, s, s' | .chain p n, s, s' => ∀ ⦃k⦄, p.width? 0 = some k →
      m.subject.Spans k s.pos s'.pos ∧ m.Free t (.alts p n) s s'
  | .rounds body times g count, s, s' => ∀ ⦃k⦄, body.width? 0 = some k → times.isFixed = true →
      count < times.min → m.subject.Spans ((times.min - count) * k) s.pos s'.pos ∧
        m.Free t (.rounds body times g count) s s'

theorem Walk.level (h : m.Walk t part s s') : m.Level t part s s' := by
  induction h with
  | done =>
    rintro i k ⟨⟩
    exact ⟨⟨0, rfl, Subject.spans_zero⟩, fun slots => ⟨slots, .done⟩⟩
  | bar =>
    intro i k hk
    obtain rfl := Option.some.inj (Option.ite_none_right_eq_some.mp hk).2
    exact ⟨⟨0, rfl, Subject.spans_zero⟩, fun slots => ⟨slots, .bar⟩⟩
  | @leaf what times rest n next s s' hr _ ih =>
    intro i k hk
    obtain ⟨hleaf, hk⟩ := Option.ite_none_right_eq_some.mp hk
    rw [Bool.and_eq_true, Bool.not_eq_true'] at hleaf
    obtain ⟨⟨j, rfl, hspans⟩, hfree⟩ := ih hk
    refine ⟨⟨times.min + j, Nat.add_assoc _ _ _,
      (spans_of_repeats hleaf.1 hleaf.2 hr).append hspans⟩, fun slots => ?_⟩
    obtain ⟨p, hp⟩ := consume_of_isSingle m (isSingle_consumer (t := t) hleaf.1)
    exact (hfree slots).imp fun slots' hw => .leaf (hr.change_slots hp) hw
  | assert hw _ ih =>
    intro i k hk
    exact (ih hk).imp_right fun hfree slots => (hfree slots).imp fun _ hwalk => .assert hw hwalk
  | skip hmin _ _ =>
    intro i k hk
    simp [Pattern.width?, hmin] at hk
  | @group body rest times n s mid s' hrounds _ ihrounds ihrest =>
    intro i k hk
    obtain ⟨htimes, hk⟩ := Option.ite_none_right_eq_some.mp hk
    obtain ⟨w, hw, hk⟩ := Option.bind_eq_some_iff.mp hk
    rw [Bool.and_eq_true, decide_eq_true_eq] at htimes
    obtain ⟨hspans, hfree⟩ := ihrounds hw htimes.1 htimes.2
    obtain ⟨⟨j, rfl, hspans'⟩, hfree'⟩ := ihrest hk
    refine ⟨⟨times.min * w + j, Nat.add_assoc _ _ _, hspans.append hspans'⟩, fun slots => ?_⟩
    obtain ⟨slots₁, hwalk⟩ := hfree (slots.enter n s.pos)
    exact (hfree' slots₁).imp fun _ hwalk' => .group hwalk hwalk'
  | @once body g count s mid _ ih =>
    intro k hk _ hcount
    obtain ⟨hspans, hfree⟩ := ih hk
    obtain rfl : count = 0 := Nat.lt_one_iff.mp hcount
    refine ⟨by simpa [Repetition.min] using hspans, fun slots => ?_⟩
    obtain ⟨slots', hwalk⟩ := hfree slots
    exact ⟨slots'.close g mid.pos, .once hwalk⟩
  | @empty body times g count s mid ho _ hpos hcount ih =>
    intro k hk _ hmin
    obtain ⟨hspans, hfree⟩ := ih hk
    -- The bodies all have one width, which an empty one shows to be zero.
    have hzero : k = 0 := by
      rw [hpos] at hspans
      exact hspans.eq_zero
    refine ⟨?_, fun slots => ?_⟩
    · rw [hzero, Nat.mul_zero, hpos]
      exact Subject.spans_zero
    · obtain ⟨slots', hwalk⟩ := hfree slots
      exact ⟨slots'.finish g mid.pos, .empty ho hwalk hpos hcount⟩
  | @enough body times g count s mid ho _ hpos hcount ih =>
    intro k hk hfix hmin
    obtain ⟨hspans, hfree⟩ := ih hk
    have hlast : times.min - count = 1 := by
      have := hcount.elim id (Repetition.min_le_of_full (Repetition.ordered_of_isFixed hfix))
      omega
    refine ⟨?_, fun slots => ?_⟩
    · rw [hlast, Nat.one_mul]
      exact hspans
    · obtain ⟨slots', hwalk⟩ := hfree slots
      exact ⟨slots'.finish g mid.pos, .enough ho hwalk hpos hcount⟩
  | @again body times g count s mid s' ho _ hpos hcount _ ihbody ihrest =>
    intro k hk hfix hmin
    obtain ⟨hspans, hfree⟩ := ihbody hk
    obtain ⟨hspans', hfree'⟩ := ihrest hk hfix (Repetition.lt_min_of_isFixed hfix hcount)
    refine ⟨?_, fun slots => ?_⟩
    · have hsum : k + (times.min - (count + 1)) * k = (times.min - count) * k := by
        rw [show times.min - count = times.min - (count + 1) + 1 by omega, Nat.succ_mul,
          Nat.add_comm]
      exact hsum ▸ hspans.append hspans'
    · obtain ⟨slots₁, hwalk⟩ := hfree slots
      obtain ⟨slots', hwalk'⟩ := hfree' (slots₁.restart g mid.pos)
      exact ⟨slots', .again ho hwalk hpos hcount hwalk'⟩
  | here _ ih =>
    intro k hk
    obtain ⟨⟨j, hj, hspans⟩, hfree⟩ := ih hk
    rw [Nat.zero_add] at hj
    exact ⟨hj ▸ hspans, fun slots => (hfree slots).imp fun _ hwalk => .here hwalk⟩
  | later hp _ ih =>
    intro k hk
    obtain ⟨hspans, hfree⟩ := ih (Pattern.width?_of_afterBar hp hk)
    exact ⟨hspans, fun slots => (hfree slots).imp fun _ hwalk => .later hp hwalk⟩

end Matcher

end PosixRegex
