import PosixRegex.Proofs.Pattern.Context
import PosixRegex.Proofs.Search.FirstMatch
import PosixRegex.Proofs.Search.Mirror

namespace PosixRegex

/-- The same spans are reported where both report any, those of the first match with the span of the
whole match put in as that of group one. At most `limit` and `limit'` spans are reported. -/
structure Captures.Wraps (limit limit' : Nat) (wrapped plain : Captures) : Prop where
  whole : wrapped.whole = plain.whole
  first : 1 < limit → wrapped.get? 1 = some plain.whole
  shifted (g : Nat) : 1 ≤ g → g + 1 < limit → g < limit' → wrapped.get? (g + 1) = plain.get? g

namespace Slots

/-- The slots of the second search, the first one of them twice. -/
structure Doubles (slots slots' : Slots) : Prop where
  zero : slots[0]? = slots'[0]?
  succ (g : Nat) : slots[g + 1]? = slots'[g]?

variable {slots slots' : Slots}

theorem Doubles.modify (h : slots.Doubles slots') {g : Nat} (hg : 1 ≤ g) (f : Slot → Slot) :
    Doubles (Array.modify slots (g + 1) f) (Array.modify slots' g f) where
  zero := by
    rw [getElem?_modify_of_ne (by omega), getElem?_modify_of_ne (by omega), h.zero]
  succ j := by
    rw [Array.getElem?_modify, Array.getElem?_modify, h.succ]
    simp only [Nat.add_right_cancel_iff]

theorem Doubles.close (h : slots.Doubles slots') (pos : Nat) :
    Doubles (Slots.close (slots.close 1 pos) 0 pos) (slots'.close 0 pos) where
  zero := by
    simp only [Slots.close, getElem?_modify_self, getElem?_modify_of_ne Nat.zero_ne_one, h.zero]
  succ j := by
    rw [Slots.close, getElem?_modify_of_ne (Nat.succ_ne_zero j), Slots.close, Slots.close,
      Array.getElem?_modify, Array.getElem?_modify, h.succ]
    by_cases hj : 0 = j
    · rw [if_pos (by omega), if_pos hj]
    · rw [if_neg (by omega), if_neg hj]

theorem Doubles.span?_succ (h : slots.Doubles slots') (g : Nat) :
    slots.span? (g + 1) = slots'.span? g := by
  rw [Slots.span?, Slots.span?, h.succ]

theorem Doubles.span?_zero (h : slots.Doubles slots') : slots.span? 0 = slots'.span? 0 := by
  rw [Slots.span?, Slots.span?, h.zero]

theorem Doubles.wraps (h : slots.Doubles slots') {span : Span} (hspan : slots'.span? 0 = some span)
    (limit limit' : Nat) :
    (Captures.ofSlots slots limit).Wraps limit limit' (.ofSlots slots' limit') := by
  have hwhole : (Captures.ofSlots slots' limit').whole = span := by
    rw [Captures.whole, Captures.get?_ofSlots, if_pos (by omega), hspan, Option.getD_some]
  refine ⟨?_, fun hone => ?_, fun g _ hlt hlt' => ?_⟩
  · rw [hwhole, Captures.whole, Captures.get?_ofSlots, if_pos (by omega), h.span?_zero, hspan,
      Option.getD_some]
  · rw [hwhole, Captures.get?_ofSlots, if_pos (by omega), h.span?_succ, hspan]
  · rw [Captures.get?_ofSlots, Captures.get?_ofSlots, if_pos (by omega), if_pos (by omega),
      h.span?_succ]

end Slots

structure Outcome.Doubles (o o' : Outcome) : Prop where
  stop : o.stop = o'.stop
  slots : o.slots.Doubles o'.slots

namespace Matcher

variable {m m' : Matcher} {t : Target} {p : Pattern} {pos bound : Nat}

structure Doubles (s s' : Place) : Prop where
  pos : s.pos = s'.pos
  slots : s.slots.Doubles s'.slots

theorem mirrors_doubles (h : m.Shares m') (bound : Nat) :
    Mirrors m m' t t (fun what => what.refs = []) 1 1 bound Doubles :=
  h.mirrors (fun _ _ hs => hs.pos) (fun _ _ _ hs => ⟨rfl, hs.slots⟩)
    (fun _ _ _ _ hwhat _ hg => absurd (hwhat ▸ hg) List.not_mem_nil)
    (fun _ _ _ f hs hg => ⟨hs.pos, hs.slots.modify hg.1 f⟩)

theorem found_group (m : Matcher) (t : Target) (p : Pattern) (pos : Nat) :
    m.found t (.group p .once .done) pos =
      m.seekAlts t p (1 + 1) (fun mid => accepted ⟨mid.pos, mid.slots.close 1 mid.pos⟩)
        ⟨pos, (m.startSlots pos).enter 1 pos⟩ := by
  simp only [found, seekAlts, seek, seekLater, seekRounds_once]
  exact Option.or_none

theorem doubles_start (hm : m.program = .ofPattern t (.group p .once .done))
    (hm' : m'.program = .ofPattern t p) (pos : Nat) :
    Slots.Doubles ((m.startSlots pos).enter 1 pos) (m'.startSlots pos) where
  zero := by
    rw [Slots.enter, Slots.getElem?_modify_of_ne Nat.zero_ne_one, slot_startSlots hm,
      slot_startSlots hm']
  succ j := by
    have hsize : m.program.groups.size = m'.program.groups.size + 1 := by
      rw [hm, hm', Program.size_groups_ofPattern, Program.size_groups_ofPattern]
      simp only [Pattern.groupCount]
    simp only [Slots.enter, startSlots, Array.getElem?_modify, Array.getElem?_replicate, hsize]
    grind

theorem rel_found (h : m.Shares m') (hm : m.program = .ofPattern t (.group p .once .done))
    (hm' : m'.program = .ofPattern t p) (hrefs : p.refs = []) (pos : Nat) :
    Option.Rel Outcome.Doubles (m.found t (.group p .once .done) pos) (m'.found t p pos) := by
  have hcomparable : Comparable Outcome.Doubles := comparable_of_stop fun _ _ ho => ho.stop
  have haccepted : FindsSame Doubles Outcome.Doubles
      (fun mid => accepted ⟨mid.pos, mid.slots.close 1 mid.pos⟩) accepted := by
    intro s s' hs
    have hclose := hs.slots.close s'.pos
    simp only [accepted, hs.pos]
    exact .some ⟨rfl, hclose⟩
  have hstart : Doubles ⟨pos, (m.startSlots pos).enter 1 pos⟩ (m'.startPlace pos) :=
    ⟨rfl, doubles_start hm hm' pos⟩
  rw [found_group]
  exact (mirrors_doubles h (1 + p.groupCount)).seekAlts hcomparable p
    (Pattern.refs_eq_nil_iff.mp hrefs) ⟨Nat.le_refl 1, Nat.le_refl _⟩ haccepted hstart

theorem rel_report (h : m.Shares m') (hm : m.program = .ofPattern t (.group p .once .done))
    (hm' : m'.program = .ofPattern t p) (hrefs : p.refs = []) (start capture capture' : Nat) :
    Option.Rel (Captures.Wraps (m.captureLimit capture) (m'.captureLimit capture'))
      (m.report capture (m.firstFound t (.group p .once .done) start))
      (m'.report capture' (m'.firstFound t p start)) := by
  have hrel : Option.Rel Outcome.Doubles (m.firstFound t (.group p .once .done) start)
      (m'.firstFound t p start) := by
    rw [firstFound, firstFound, h.subject]
    exact rel_findSome? fun pos _ => rel_found h hm hm' hrefs pos
  unfold report
  obtain ⟨ha, ha'⟩ | ⟨o, o', ho, ho', hdoubles⟩ := rel_cases hrel
  · rw [ha, ha']
    exact .none
  · rw [ho, ho']
    obtain ⟨pos, -, hfound⟩ := List.exists_of_findSome?_eq_some ho'
    exact .some (hdoubles.slots.wraps (span?_of_found hm' hfound) _ _)

/-- A group around a pattern only adds a capture: the match is the same, the new group has its span,
and the other groups are reported behind it. -/
theorem execute_wrapped {o : Options} {l : Locale} {compileLimits : CompileLimits}
    {text : List Char} {plain wrapped : Program}
    (hplain : Program.compile o l compileLimits text = .ok plain)
    (hwrapped : Program.compile o l compileLimits
      (o.dialect.operator '(' ++ (text ++ o.dialect.operator ')')) = .ok wrapped)
    (hrefs : ∀ p, Pattern.read o.dialect compileLimits text = .ok p → p.refs = [])
    (s : Subject) (flags : ExecFlags) (limits limits' : SearchLimits) (start capture capture' : Nat)
    (hlimit : WithinLimits ((Matcher.mk wrapped l s flags).execute limits start capture))
    (hlimit' : WithinLimits ((Matcher.mk plain l s flags).execute limits' start capture')) :
    ∃ found found', (Matcher.mk wrapped l s flags).execute limits start capture = .ok found ∧
      (Matcher.mk plain l s flags).execute limits' start capture' = .ok found' ∧
      Option.Rel (Captures.Wraps ((Matcher.mk wrapped l s flags).captureLimit capture)
        ((Matcher.mk plain l s flags).captureLimit capture')) found found' := by
  obtain ⟨p, hp, rfl⟩ := Program.exists_ofPattern hplain
  obtain ⟨q, hq, rfl⟩ := Program.exists_ofPattern hwrapped
  obtain rfl := Pattern.read_wrapped hp hq
  have hshares : Shares
      ⟨.ofPattern ⟨o, l, compileLimits.run⟩ (.group p .once .done), l, s, flags⟩
      ⟨.ofPattern ⟨o, l, compileLimits.run⟩ p, l, s, flags⟩ := ⟨rfl, rfl, rfl, rfl⟩
  exact ⟨_, _, execute_eq_firstFound rfl (Program.connected_of_compile hwrapped) hlimit,
    execute_eq_firstFound rfl (Program.connected_of_compile hplain) hlimit',
    rel_report hshares rfl rfl (hrefs p hp) start capture capture'⟩

def starting : Pattern :=
  .leaf (.char '*') .once (.group (.leaf (.char 'a') .once .done) .once (.assert .lineEnd .done))

def basically (p : Pattern) : Matcher :=
  ⟨.ofPattern ⟨{}, .posix, 255⟩ p, .posix, .ofList ['x', '*', 'a'], {}⟩

/-- At the start of a group a star is a character too, and at its end a dollar sign is an anchor. -/
theorem execute_wrapped_starting :
    ∃ found, (basically (.group starting .once .done)).execute {} 0 3 = .ok found ∧
      Option.Rel (Captures.Wraps 3 2) found (some ⟨[some ⟨1, 3⟩, some ⟨2, 3⟩]⟩) := by
  have hplain : Program.compile {} .posix {} ['*', '\\', '(', 'a', '\\', ')', '$'] =
      .ok (basically starting).program := by decide
  have hwrapped : Program.compile {} .posix {} (Dialect.operator .basic '(' ++
      (['*', '\\', '(', 'a', '\\', ')', '$'] ++ Dialect.operator .basic ')')) =
      .ok (basically (.group starting .once .done)).program := by decide
  have hrefs : ∀ p, Pattern.read .basic {} ['*', '\\', '(', 'a', '\\', ')', '$'] = .ok p →
      p.refs = [] := by
    intro p hp
    cases hp
    rfl
  have hrun : (basically starting).execute {} 0 2 = .ok (some ⟨[some ⟨1, 3⟩, some ⟨2, 3⟩]⟩) := by
    decide +kernel
  obtain ⟨found, found', hfound, hfound', h⟩ := execute_wrapped hplain hwrapped hrefs
    (.ofList ['x', '*', 'a']) {} {} {} 0 3 2 (.of_isOk (by decide +kernel))
    (.of_isOk (by decide +kernel))
  obtain rfl := Except.ok.inj (hfound'.symm.trans hrun)
  exact ⟨found, hfound, h⟩

end Matcher

end PosixRegex
