import PosixRegex.Proofs.Search.Control
import PosixRegex.Proofs.Search.Nesting

namespace PosixRegex

namespace Slot

/-- An iteration of the group has started between the two places. -/
def Started (slot : Slot) (s : Subject) (lo hi : Nat) : Prop :=
  ∃ a, slot.start = some a ∧ lo ≤ a ∧ a ≤ hi ∧ s.isBoundary a = true

/-- The group holds nothing, or a text between the two places. -/
def Complete (slot : Slot) (s : Subject) (lo hi : Nat) : Prop :=
  slot.start = none ∧ slot.stop = none ∨
    ∃ a b, slot.start = some a ∧ slot.stop = some b ∧ lo ≤ a ∧ a ≤ b ∧ b ≤ hi ∧
      s.isBoundary a = true ∧ s.isBoundary b = true

variable {slot : Slot} {s : Subject} {lo hi hi' : Nat}

theorem Started.mono (h : slot.Started s lo hi) (hle : hi ≤ hi') : slot.Started s lo hi' := by
  obtain ⟨a, ha, hlo, hhi, hb⟩ := h
  exact ⟨a, ha, hlo, Nat.le_trans hhi hle, hb⟩

theorem Complete.mono (h : slot.Complete s lo hi) (hle : hi ≤ hi') : slot.Complete s lo hi' := by
  obtain h | ⟨a, b, ha, hb, hlo, hab, hhi, hba, hbb⟩ := h
  · exact .inl h
  · exact .inr ⟨a, b, ha, hb, hlo, hab, Nat.le_trans hhi hle, hba, hbb⟩

theorem Started.complete (h : slot.Started s lo hi) (hhi : s.isBoundary hi = true) (count : Nat) :
    Complete ⟨count, slot.start, some hi⟩ s lo hi := by
  obtain ⟨a, ha, hlo, hle, hb⟩ := h
  exact .inr ⟨a, hi, ha, rfl, hlo, hle, Nat.le_refl hi, hb, hhi⟩

theorem Complete.bounds (h : slot.Complete s lo hi) {span : Span} (hspan : slot.span? = some span) :
    lo ≤ span.start ∧ span.start ≤ span.stop ∧ span.stop ≤ hi ∧
      s.isBoundary span.start = true ∧ s.isBoundary span.stop = true := by
  obtain ⟨hnone, -⟩ | ⟨a, b, ha, hb, hlo, hab, hhi, hba, hbb⟩ := h
  · simp [span?, hnone] at hspan
  · simp only [span?, ha, hb, if_pos hab, Option.some.injEq] at hspan
    subst hspan
    exact ⟨hlo, hab, hhi, hba, hbb⟩

end Slot

namespace Matcher

/-- The slots are as they have to be on a path from `lo`. -/
structure Consistent (m : Matcher) (lo : Nat) (t : Thread) : Prop where
  le : lo ≤ t.pos
  isBoundary : m.subject.isBoundary t.pos = true
  size : t.slots.size = m.program.groups.size
  whole : t.slots[0]? = some ⟨0, some lo, none⟩
  slots {g : Nat} {span : GroupSpan} {slot : Slot} (hg : 1 ≤ g)
    (hspan : m.program.groups[g]? = some span) (hs : t.slots[g]? = some slot) :
    (span.Around t.pc → slot.Started m.subject lo t.pos) ∧
      (¬span.Around t.pc → slot.Complete m.subject lo t.pos)

variable {m : Matcher} {lo pos : Nat} {t t' : Thread}

theorem consistent_start {q : Pattern} {target : Target} (hm : m.program = .ofPattern target q)
    (hpos : m.subject.isBoundary pos = true) : m.Consistent pos (m.startThread pos) where
  le := Nat.le_refl pos
  isBoundary := hpos
  size := size_startSlots m pos
  whole := slot_startSlots hm pos
  slots {g span slot} hg _ hs := by
    change (m.startSlots pos)[g]? = some slot at hs
    rw [startSlots, Slots.getElem?_modify_of_ne (by omega)] at hs
    obtain rfl : slot = {} := by
      have hmem := Array.mem_of_getElem? hs
      exact Array.eq_of_mem_replicate hmem
    exact ⟨fun h => absurd h.1 (Nat.not_lt_zero _), fun _ => .inl ⟨rfl, rfl⟩⟩

theorem Consistent.started (h : m.Consistent lo t) {count : Nat} {stop : Option Nat} :
    Slot.Started ⟨count, some t.pos, stop⟩ m.subject lo t.pos :=
  ⟨t.pos, rfl, h.le, Nat.le_refl _, h.isBoundary⟩

theorem Consistent.move (hp : m.program.Structured) (h : m.Consistent lo t) (hmove : m.Moves t t') :
    m.Consistent lo t' where
  le := Nat.le_trans h.le hmove.le
  isBoundary := hmove.isBoundary h.isBoundary
  size := hmove.size_eq.trans h.size
  whole := (hmove.slot_zero hp).trans h.whole
  slots {g span slot'} hg hspan hs' := by
    obtain ⟨hlt, times, henter, hleave⟩ := Program.exists_markers hp.wellFormed hg hspan
    have hsize := (Array.getElem?_eq_some_iff.mp hspan).1
    obtain ⟨slot, hs⟩ : ∃ slot, t.slots[g]? = some slot :=
      ⟨_, Array.getElem?_eq_getElem (h.size ▸ hsize)⟩
    obtain ⟨hinside, houtside⟩ := h.slots hg hspan hs
    have hfirst : span.Around (span.start + 1) := ⟨Nat.lt_succ_self _, hlt⟩
    have hbehind : ¬span.Around (span.stop + 1) := fun h => absurd h.2 (Nat.not_succ_le_self _)
    by_cases hstart : t.pc = span.start
    · rw [← hstart] at henter
      obtain rfl | ⟨-, rfl⟩ := hmove.of_start hp hspan henter
      · obtain rfl := Option.some.inj ((Slots.getElem?_enter hs t.pos).symm.trans hs')
        exact ⟨fun _ => h.started, fun hout => absurd hfirst hout⟩
      · obtain rfl := Option.some.inj ((Slots.getElem?_skip hs).symm.trans hs')
        exact ⟨fun hin => absurd hin hbehind, fun _ => .inl ⟨rfl, rfl⟩⟩
    · by_cases hstop : t.pc = span.stop
      · rw [← hstop] at hleave
        have hstarted := hinside ⟨hstop ▸ hlt, Nat.le_of_eq hstop⟩
        obtain ⟨rfl, rfl⟩ | ⟨slot₁, hs₁, ⟨-, rfl⟩ | ⟨-, -, rfl⟩⟩ := hmove.of_stop hp hspan hleave
        · obtain rfl := Option.some.inj ((Slots.getElem?_close hs t.pos).symm.trans hs')
          exact ⟨fun hin => absurd hin hbehind, fun _ => hstarted.complete h.isBoundary _⟩
        · obtain rfl := Option.some.inj ((Slots.getElem?_finish hs t.pos).symm.trans hs')
          exact ⟨fun hin => absurd hin hbehind, fun _ => hstarted.complete h.isBoundary _⟩
        · obtain rfl := Option.some.inj ((Slots.getElem?_restart hs t.pos).symm.trans hs')
          exact ⟨fun _ => h.started, fun hout => absurd hfirst hout⟩
      · rw [hmove.slot_eq_of_between hp hspan hstart hstop, hs] at hs'
        obtain rfl := Option.some.inj hs'
        rw [← hmove.around_iff hp hg hspan hstart hstop]
        exact ⟨fun h => (hinside h).mono hmove.le, fun h => (houtside h).mono hmove.le⟩

theorem consistent_of_reaches {q : Pattern} {target : Target} (hm : m.program = .ofPattern target q)
    (hp : m.program.Structured) (hpos : m.subject.isBoundary pos = true) (h : m.Reaches pos t) :
    m.Consistent pos t := by
  induction h with
  | refl => exact consistent_start hm hpos
  | tail _ hmove ih => exact ih.move hp hmove

theorem Consistent.complete (h : m.Consistent lo t) {g : Nat} {slot : Slot} (hg : 1 ≤ g)
    (hs : t.slots[g]? = some slot)
    (hout : ∀ span, m.program.groups[g]? = some span → ¬span.Around t.pc) :
    slot.Complete m.subject lo t.pos := by
  have hlt := h.size ▸ (Array.getElem?_eq_some_iff.mp hs).1
  have hspan := Array.getElem?_eq_getElem hlt
  exact (h.slots hg hspan hs).2 (hout _ hspan)

/-- What the next step consumes, if it consumes anything. -/
def consumer? (m : Matcher) : Config → Option Consumer
  | .ready t =>
    match m.program.insts[t.pc]? with
    | some ⟨.consume what, _⟩ => some what
    | _ => none
  | .repeating _ what _ _ _ => some what

/-- A step that consumes belongs to an instruction that a path has reached. A repetition has left
the slots as they were. -/
theorem exists_reached_of_consumer? {limits : SearchLimits} {s : State}
    (h : m.Visits limits pos s) {what : Consumer} (hwhat : m.consumer? s.config = some what) :
    ∃ t times, m.Reaches pos t ∧ m.program.insts[t.pc]? = some ⟨.consume what, times⟩ ∧
      s.config.thread.slots = t.slots ∧ t.pos ≤ s.config.thread.pos := by
  have hmeets := ((m.maintains_onPaths pos).visits .refl h).config
  cases hc : s.config with
  | ready t =>
    rw [hc] at hmeets hwhat
    simp only [consumer?] at hwhat
    split at hwhat
    · rename_i times hi
      cases hwhat
      exact ⟨t, times, hmeets, hi, rfl, Nat.le_refl _⟩
    · cases hwhat
  | repeating t what' times count stops =>
    rw [hc] at hmeets hwhat
    cases hwhat
    obtain ⟨first, hreach, hrepeating, -⟩ := hmeets
    exact ⟨_, times, hreach, hrepeating.inst, rfl, hrepeating.underway.le⟩

theorem complete_of_visits {limits : SearchLimits} {q : Pattern} {target : Target}
    (hm : m.program = .ofPattern target q) (hp : m.program.Structured)
    (hpos : m.subject.isBoundary pos = true) {s : State} (h : m.Visits limits pos s)
    {what : Consumer} {g : Nat} (hwhat : m.consumer? s.config = some what) (hg : g ∈ what.refs) :
    ∃ slot, s.config.thread.slots[g]? = some slot ∧
      slot.Complete m.subject pos s.config.thread.pos := by
  obtain ⟨t, times, hreach, hi, hslots, hle⟩ := exists_reached_of_consumer? h hwhat
  have ht := consistent_of_reaches hm hp hpos hreach
  obtain ⟨-, -, hsound⟩ := Program.defect?_eq_none_iff.mp hp.wellFormed.sound
  have hlt := Program.instDefect?_consume_eq_none_iff.mp (hsound _ _ hi) g hg
  obtain ⟨slot, hs⟩ : ∃ slot, t.slots[g]? = some slot :=
    ⟨_, Array.getElem?_eq_getElem (ht.size ▸ hlt)⟩
  obtain ⟨hpos, hout⟩ := (hp.inOrder hi).refs rfl hg
  exact ⟨slot, hslots ▸ hs, (ht.complete hpos hs hout).mono hle⟩

theorem captures_of_arrives {q : Pattern} {target : Target} (hm : m.program = .ofPattern target q)
    (hp : m.program.Structured) (hpos : m.subject.isBoundary pos = true) {o : Outcome}
    (h : m.Arrives pos o) (limit : Nat) :
    (Captures.ofSlots o.slots limit).spans.length = min (max limit 1) (m.program.groupCount + 1) ∧
      (Captures.ofSlots o.slots limit).get? 0 = some ⟨pos, o.stop⟩ ∧
      ∀ g span, (Captures.ofSlots o.slots limit).get? g = some span →
        pos ≤ span.start ∧ span.start ≤ span.stop ∧ span.stop ≤ o.stop ∧
          m.subject.isBoundary span.start = true ∧ m.subject.isBoundary span.stop = true := by
  obtain ⟨t, hreach, ⟨times, hi⟩, rfl⟩ := h
  have ht := consistent_of_reaches hm hp hpos hreach
  have hwhole := Slots.span?_close ht.whole rfl ht.le
  refine ⟨?_, ?_, fun g span hspan => ?_⟩
  · have hsize := ht.size
    have hcount : 1 ≤ m.program.groups.size := by
      rw [hm, Program.size_groups_ofPattern]
      omega
    simp [Captures.ofSlots, hsize, Program.groupCount, Nat.sub_add_cancel hcount]
  · rw [Captures.get?_ofSlots, if_pos (by omega), hwhole]
  · rw [Captures.get?_ofSlots] at hspan
    split at hspan
    · by_cases hg : g = 0
      · subst hg
        obtain rfl := Option.some.inj (hwhole.symm.trans hspan)
        exact ⟨Nat.le_refl _, ht.le, Nat.le_refl _, hpos, ht.isBoundary⟩
      · simp only [Slots.close] at hspan
        rw [Slots.span?_modify_of_ne hg] at hspan
        obtain ⟨slot, hs, hspan⟩ := Option.bind_eq_some_iff.mp hspan
        have hpos := Nat.pos_of_ne_zero hg
        have hslot := ht.complete hpos hs fun _ => hp.not_around_of_accept hi hpos
        exact hslot.bounds hspan
    · cases hspan

/-- Captures are well formed. What is reported lies inside of the whole match, on boundaries between
characters, and a back-reference is only executed where its group is unset or complete. -/
theorem captures_wellFormed {o : Options} {l : Locale} {compileLimits : CompileLimits}
    {text : List Char} (hc : Program.compile o l compileLimits text = .ok m.program)
    (limits : SearchLimits) (start capture : Nat) :
    (∀ caps, m.execute limits start capture = .ok (some caps) →
      caps.spans.length = (if m.program.flags.noCapture then 1
        else min (max capture 1) (m.program.groupCount + 1)) ∧
      caps.get? 0 = some caps.whole ∧ start ≤ caps.whole.start ∧
      ∀ g span, caps.get? g = some span →
        caps.whole.start ≤ span.start ∧ span.start ≤ span.stop ∧ span.stop ≤ caps.whole.stop ∧
          m.subject.isBoundary span.start = true ∧ m.subject.isBoundary span.stop = true) ∧
    ∀ pos s what g, m.admits pos = true → m.Visits limits pos s →
      m.consumer? s.config = some what → g ∈ what.refs →
      ∃ slot, s.config.thread.slots[g]? = some slot ∧
        slot.Complete m.subject pos s.config.thread.pos := by
  obtain ⟨q, -, hm⟩ := Program.exists_ofPattern hc
  have hp := Program.structured_of_compile hc
  refine ⟨fun caps h => ?_, fun pos s what g hadmits hs hwhat hg => ?_⟩
  · obtain ⟨pos, fuel, o, hle, hadmits, ho, rfl, -⟩ := scan_some h
    have harrives := (m.maintains_onPaths pos).search .refl ho
    obtain ⟨hlength, hwhole, hspans⟩ :=
      captures_of_arrives hm hp (isBoundary_of_admits hadmits) harrives (m.captureLimit capture)
    have hspan : (Captures.ofSlots o.slots (m.captureLimit capture)).whole = ⟨pos, o.stop⟩ := by
      rw [Captures.whole, hwhole]
      rfl
    rw [hspan]
    refine ⟨?_, hwhole, hle, hspans⟩
    rw [hlength, captureLimit]
    split <;> omega
  · exact complete_of_visits hm hp (isBoundary_of_admits hadmits) hs hwhat hg

def echoing : Pattern :=
  .group (.leaf (.char 'a') .once .done) .star (.leaf (.backRef 1) .once .done)

def echoed : State :=
  ⟨.ready ⟨3, 1, #[⟨0, some 0, none⟩, ⟨1, some 0, some 1⟩]⟩,
    ⟨[.retry 0 3 #[⟨0, some 0, none⟩, ⟨0, none, none⟩] 0 [] 0], 1, rfl⟩⟩

theorem captures_wellFormed_echoing :
    (∀ g span, (Captures.mk [some ⟨0, 2⟩, some ⟨0, 1⟩]).get? g = some span →
      span.start ≤ span.stop ∧ span.stop ≤ 2) ∧
    ∃ slot, echoed.config.thread.slots[1]? = some slot ∧
      slot.Complete (matcherIn echoing ['a', 'a']).subject 0 echoed.config.thread.pos := by
  have hc : Program.compile { dialect := .extended } .posix {} ['(', 'a', ')', '*', '\\', '1'] =
      .ok (matcherIn echoing ['a', 'a']).program := by
    decide
  obtain ⟨hreported, hread⟩ := captures_wellFormed hc {} 0 5
  obtain ⟨-, -, -, hspans⟩ := hreported ⟨[some ⟨0, 2⟩, some ⟨0, 1⟩]⟩ (by decide +kernel)
  refine ⟨fun g span h => ⟨(hspans g span h).2.1, (hspans g span h).2.2.1⟩, ?_⟩
  have hvisits : (matcherIn echoing ['a', 'a']).Visits {} 0 echoed :=
    .next (.next (.next (.next (.next (.next (.next .start rfl) rfl) rfl) rfl) rfl) rfl) rfl
  exact hread 0 echoed (.backRef 1) 1 (by decide) hvisits rfl (by decide)

end Matcher

end PosixRegex
