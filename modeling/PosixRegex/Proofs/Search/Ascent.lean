import PosixRegex.Proofs.Program.Layout
import PosixRegex.Proofs.Search.Width

namespace PosixRegex

namespace Matcher

variable {m : Matcher} {t : Target} {a b b' c n : Nat} {p rest : Pattern} {s s' : Place}

theorem Walk.fits {part : Part} (h : m.Walk t part s s') (hs : m.Fits s) : m.Fits s' :=
  ⟨h.size_eq.trans hs.size_eq, h.isBoundary hs.isBoundary⟩

/-- An instruction that moves on without a condition passes the property on. -/
theorem Ascends.of_move (h : m.Ascends b) (move : Place → Place)
    (hmove : ∀ s, m.Fits s → m.Fits (move s) ∧ (move s).pos = s.pos ∧
      m.play (s.thread b') = m.play ((move s).thread b)) : m.Ascends b' where
  ends hs := by
    obtain ⟨hfit, -, heq⟩ := hmove _ hs
    rw [heq]
    exact h.ends hfit
  same hs hs' hpos ho := by
    obtain ⟨hfit, hp, heq⟩ := hmove _ hs
    obtain ⟨hfit', hp', heq'⟩ := hmove _ hs'
    rw [heq] at ho
    rw [heq']
    exact h.same hfit hfit' (by omega) ho
  mono hs hs' hpos ho ho' := by
    obtain ⟨hfit, hp, heq⟩ := hmove _ hs
    obtain ⟨hfit', hp', heq'⟩ := hmove _ hs'
    rw [heq] at ho
    rw [heq'] at ho'
    exact h.mono hfit hfit' (by omega) ho ho'

theorem Ascends.of_play_eq (h : m.Ascends b)
    (heq : ∀ s : Place, m.play (s.thread b') = m.play (s.thread b)) : m.Ascends b' :=
  h.of_move id fun s hs => ⟨hs, rfl, heq s⟩

theorem Explores.of_play_eq {reach : Place → Prop} {far : Prop} {value : Option (Option Outcome)}
    (h : m.Explores b' reach far value)
    (heq : ∀ s : Place, m.play (s.thread b') = m.play (s.thread b)) :
    m.Explores b reach far value := by
  intro hends
  obtain ⟨result, hvalue, hf⟩ := h fun s hs => by
    rw [heq]
    exact hends s hs
  refine ⟨result, hvalue, fun hr hs => heq _ ▸ hf.complete hr hs, fun hr => ?_,
    fun hfar hr hs ho => hf.longest hfar hr hs (heq _ ▸ ho)⟩
  obtain ⟨s, hs, ho⟩ := hf.sound hr
  exact ⟨s, hs, heq s ▸ ho⟩

theorem explores_consume {what : Consumer} {times : Repetition} {far : Prop}
    (hi : m.program.insts[a]? = some ⟨.consume what, times⟩)
    (hfar : far → times.isFixed = true ∨ (m.Fits s ∧ m.Defers (a + 1) (m.Round what))) :
    m.Explores (a + 1) (fun s' => m.Repeats what times s.slots 0 s.pos s'.pos ∧
      s'.slots = s.slots) far (m.play (s.thread a)) := by
  rw [show m.play (s.thread a) = m.playCounts (s.thread a) what times 0 from play_consume hi]
  exact explores_counts m what times hfar

theorem explores_run {cs : List Char} {far : Prop} (hcs : cs ≠ [])
    (hi : m.program.insts[a]? = some (.ofAtom (.consume (t.literal cs)))) :
    m.Explores (a + 1) (fun s' => m.subject.acceptAll (cs.map t.spells) s.pos = some s'.pos ∧
      s'.slots = s.slots) far (m.play (s.thread a)) := by
  refine (explores_consume hi fun _ => Or.inl rfl).of_iff fun s' => ?_
  rw [repeats_once, consume_literal m t hcs]

theorem ascends_assert {what : Assertion}
    (hi : m.program.insts[a]? = some (.ofAtom (.assert what))) (h : m.Ascends (a + 1)) :
    m.Ascends a := by
  have hplay : ∀ s : Place, m.play (s.thread a) =
      if m.holds what s.pos then m.play (s.thread (a + 1)) else some none :=
    fun s => play_assert hi
  have hholds : ∀ (s : Place) (o : Outcome), m.play (s.thread a) = some (some o) →
      m.holds what s.pos = true ∧ m.play (s.thread (a + 1)) = some (some o) := by
    intro s o ho
    rw [hplay] at ho
    split at ho
    · exact ⟨‹_›, ho⟩
    · cases ho
  refine ⟨fun {s} hs => ?_, fun {s s' o} hs hs' hpos ho => ?_, fun hs hs' hpos ho ho' => ?_⟩
  · rw [hplay]
    split
    · exact h.ends hs
    · exact ⟨none, rfl⟩
  · obtain ⟨hw, ho⟩ := hholds s o ho
    rw [hplay, if_pos (hpos ▸ hw)]
    exact h.same hs hs' hpos ho
  · exact h.mono hs hs' hpos (hholds _ _ ho).2 (hholds _ _ ho').2

theorem ascends_run {cs : List Char} (hcs : cs ≠ [])
    (hi : m.program.insts[a]? = some (.ofAtom (.consume (t.literal cs))))
    (h : m.Ascends (a + 1)) : m.Ascends a := by
  refine h.of_reach False (fun s _ => explores_run hcs hi) ?_ ?_ ?_
  · rintro s mid hs ⟨hr, hslots⟩
    exact ⟨hslots ▸ hs.size_eq, Subject.isBoundary_of_acceptAll hs.isBoundary hr⟩
  · rintro s s' mid hpos ⟨hr, -⟩
    exact ⟨⟨mid.pos, s'.slots⟩, ⟨hpos ▸ hr, rfl⟩, rfl⟩
  · rintro s s' mid mid' - hle ⟨hr, -⟩ ⟨hr', -⟩
    exact Or.inl (Subject.acceptAll_mono hr hr' hle)

theorem ascends_leaf {what : Leaf} {times : Repetition} (hsingle : what.isBackRef = false)
    (hi : m.program.insts[a]? = some ⟨.consume (t.consumer what), times⟩)
    (h : m.Ascends (a + 1)) : m.Ascends a := by
  obtain ⟨p, hp⟩ := consume_of_isSingle m (isSingle_consumer (t := t) hsingle)
  refine h.of_reach True
    (fun s hs => explores_consume hi fun _ => Or.inr ⟨hs, h.defers fun _ _ hr => Nat.le_of_lt hr.1⟩)
    ?_ ?_ ?_
  · rintro s mid hs ⟨hr, hslots⟩
    exact ⟨hslots ▸ hs.size_eq, hr.isBoundary hs.isBoundary⟩
  · rintro s s' mid hpos ⟨hr, -⟩
    exact ⟨⟨mid.pos, s'.slots⟩, ⟨hpos ▸ hr.change_slots hp, rfl⟩, rfl⟩
  · rintro s s' mid mid' hs' hle ⟨hr, -⟩ ⟨hr', -⟩
    refine (hr.cross hp hr' hs'.isBoundary hle).imp_right fun hr => ⟨trivial, ?_⟩
    exact ⟨⟨mid.pos, s'.slots⟩, ⟨hr, rfl⟩, rfl⟩

theorem ascends_level {body : Pattern} {times : Repetition} {k : Nat} {far : Place → Prop}
    (hwidth : (Pattern.group body times .done).width? 0 = some k)
    (hexplores : ∀ s : Place, s.slots.size = m.program.groups.size →
      m.Explores b (m.Walk t (.seq (.group body times .done) n) s) (far s) (m.play (s.thread a)))
    (h : m.Ascends b) : m.Ascends a := by
  refine h.of_reach False (fun s hs => (hexplores s hs.size_eq).mono False.elim)
    (fun s mid hs hw => hw.fits hs) ?_ ?_
  · intro s s' mid hpos hw
    obtain ⟨slots, hw'⟩ := (hw.level hwidth).2 s'.slots
    rw [hpos] at hw'
    exact ⟨⟨mid.pos, slots⟩, hw', rfl⟩
  · intro s s' mid mid' _ hle hw hw'
    obtain ⟨⟨j, hj, hspans⟩, -⟩ := hw.level hwidth
    obtain ⟨⟨j', hj', hspans'⟩, -⟩ := hw'.level hwidth
    obtain rfl : j = j' := by omega
    exact Or.inl (hspans.mono hspans' hle)

theorem play_leave_once_thread {mid : Place} {g : Nat} {slot : Slot} {span : GroupSpan}
    (hl : m.program.insts[c]? = some ⟨.leave g, .once⟩) (hs : mid.slots[g]? = some slot)
    (hg : m.program.groups[g]? = some span) :
    m.play (mid.thread c) =
      m.play (Place.thread ⟨mid.pos, mid.slots.close g mid.pos⟩ (c + 1)) :=
  play_leave_once hl hs hg

theorem play_leave_thread {mid : Place} {g : Nat} {times : Repetition} {slot : Slot}
    {span : GroupSpan} (hl : m.program.insts[c]? = some ⟨.leave g, times⟩) (ho : times ≠ .once)
    (hs : mid.slots[g]? = some slot) (hg : m.program.groups[g]? = some span) :
    m.play (mid.thread c) =
      if slot.start = some mid.pos then
        if max times.min 1 ≤ slot.count then some none
        else m.play (Place.thread ⟨mid.pos, mid.slots.finish g mid.pos⟩ (c + 1))
      else if times.belowMax (slot.count + 1) then
        firstOf (m.play (Place.thread ⟨mid.pos, mid.slots.restart g mid.pos⟩ (span.start + 1)))
          (if times.min ≤ slot.count + 1 then
            m.play (Place.thread ⟨mid.pos, mid.slots.finish g mid.pos⟩ (c + 1))
          else some none)
      else m.play (Place.thread ⟨mid.pos, mid.slots.finish g mid.pos⟩ (c + 1)) :=
  play_leave hl ho hs hg

theorem getElem?_slots {g : Nat} {span : GroupSpan} (hs : s.slots.size = m.program.groups.size)
    (hg : m.program.groups[g]? = some span) : ∃ slot, s.slots[g]? = some slot := by
  have hlt : g < s.slots.size := by
    rw [hs]
    exact (Array.getElem?_eq_some_iff.mp hg).1
  exact ⟨_, Array.getElem?_eq_getElem hlt⟩

theorem ascends_enter_once {g : Nat} {span : GroupSpan}
    (hi : m.program.insts[a]? = some ⟨.enter g, .once⟩) (hg : m.program.groups[g]? = some span)
    (h : m.Ascends (a + 1)) : m.Ascends a := by
  refine h.of_move (fun s => ⟨s.pos, s.slots.enter g s.pos⟩) fun s hs => ?_
  obtain ⟨slot, hslot⟩ := getElem?_slots hs.size_eq hg
  refine ⟨⟨by simpa using hs.size_eq, hs.isBoundary⟩, rfl, ?_⟩
  exact (play_enter (t := s.thread a) hi hslot hg).trans (firstOf_fail _)

theorem ascends_leave_once {g : Nat} {span : GroupSpan}
    (hl : m.program.insts[c]? = some ⟨.leave g, .once⟩) (hg : m.program.groups[g]? = some span)
    (h : m.Ascends (c + 1)) : m.Ascends c := by
  refine h.of_move (fun s => ⟨s.pos, s.slots.close g s.pos⟩) fun s hs => ?_
  obtain ⟨slot, hslot⟩ := getElem?_slots hs.size_eq hg
  exact ⟨⟨by simpa using hs.size_eq, hs.isBoundary⟩, rfl, play_leave_once_thread hl hslot hg⟩

theorem nextBranch_last {d : Nat} (hi : m.program.insts[a]? = some (.ofAtom (.branch (d + 1))))
    (he : m.program.insts[a + (d + 1)]? = some (.ofAtom (.branch 0))) :
    m.nextBranch a = .ok none := by
  have h₁ : m.headDistance a = .ok (d + 1) := by rw [headDistance, hi]; rfl
  have h₂ : m.headDistance (a + (d + 1)) = .ok 0 := by rw [headDistance, he]; rfl
  rw [nextBranch, h₁]
  simp only [bind, Except.bind, h₂]
  rfl

theorem nextBranch_more {d d' : Nat} (hi : m.program.insts[a]? = some (.ofAtom (.branch (d + 1))))
    (he : m.program.insts[a + (d + 1)]? = some (.ofAtom (.branch (d' + 1)))) :
    m.nextBranch a = .ok (some (a + (d + 1))) := by
  have h₁ : m.headDistance a = .ok (d + 1) := by rw [headDistance, hi]; rfl
  have h₂ : m.headDistance (a + (d + 1)) = .ok (d' + 1) := by rw [headDistance, he]; rfl
  rw [nextBranch, h₁]
  simp only [bind, Except.bind, h₂]
  rfl

theorem play_last {d : Nat} (hi : m.program.insts[a]? = some (.ofAtom (.branch (d + 1))))
    (he : m.program.insts[a + (d + 1)]? = some (.ofAtom (.branch 0))) (s : Place) :
    m.play (s.thread a) = m.play (s.thread (a + 1)) := by
  rw [show m.play (s.thread a) = m.playBranches a s.pos s.slots none from play_branch hi,
    playBranches_eq, show m.play ⟨a + 1, s.pos, s.slots⟩ = m.play (s.thread (a + 1)) from rfl]
  simp only [playFollowing, nextBranch_last hi he, Outcome.further_none]
  exact Option.bind_fun_some _

theorem ascends_last {d : Nat} (hi : m.program.insts[a]? = some (.ofAtom (.branch (d + 1))))
    (hd : a + (d + 1) = b) (he : m.program.insts[b]? = some (.ofAtom (.branch 0)))
    (hseq : m.Ascends b → m.Ascends (a + 1)) (h : m.Ascends (b + 1)) : m.Ascends a := by
  have hend : m.Ascends b := h.of_play_eq fun s => play_branch_zero he
  exact (hseq hend).of_play_eq (play_last hi (hd ▸ he))

end Matcher

end PosixRegex
