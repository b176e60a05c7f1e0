import PosixRegex.Proofs.Pattern.Scopes
import PosixRegex.Proofs.Program.WellFormed

namespace PosixRegex

/-- The group is around the instructions behind the marker at its start, up to the one at its end. -/
def GroupSpan.Around (span : GroupSpan) (pc : Nat) : Prop := span.start < pc ∧ pc ≤ span.stop

instance (span : GroupSpan) (pc : Nat) : Decidable (span.Around pc) :=
  inferInstanceAs (Decidable (_ ∧ _))

def Part.Proper (around : List Nat) : Part → Prop
  | seq p n | alts p n | chain p n => p.Proper around n
  | rounds _ _ _ _ => True

namespace Program

/-- The bounds of the repetition are in order, and no group around the instruction is referred to. -/
structure InOrder (p : Program) (pc : Nat) (i : Inst) : Prop where
  ordered : i.times.Ordered
  refs {what : Consumer} {g : Nat} (hi : i.atom = .consume what) (hg : g ∈ what.refs) :
    1 ≤ g ∧ ∀ span, p.groups[g]? = some span → ¬span.Around pc

/-- All groups around the place are in the list, and so is the whole program. -/
structure Surrounded (p : Program) (pc : Nat) (around : List Nat) : Prop where
  whole : 0 ∈ around
  groups {g : Nat} {span : GroupSpan} (hg : 1 ≤ g) (hspan : p.groups[g]? = some span)
    (h : span.Around pc) : g ∈ around

/-- The instructions from `a` up to `b` are in order, and the same groups are around `a` and `b`. -/
def Passes (p : Program) (around : List Nat) (a b : Nat) : Prop :=
  p.Surrounded a around → p.Surrounded b around ∧
    ∀ pc i, a ≤ pc → pc < b → p.insts[pc]? = some i → p.InOrder pc i

variable {p : Program} {t : Target} {around : List Nat} {a b c g g' pc n : Nat}
  {span span' : GroupSpan} {i : Inst} {times : Repetition}

theorem InOrder.of_refs {what : Consumer} (ho : times.Ordered) (hs : p.Surrounded pc around)
    (hrefs : ∀ g ∈ what.refs, g ∉ around) : p.InOrder pc ⟨.consume what, times⟩ where
  ordered := ho
  refs := by
    rintro _ g ⟨⟩ hg
    have hg := hrefs g hg
    have hpos : 1 ≤ g := Nat.pos_of_ne_zero fun hzero => hg (hzero ▸ hs.whole)
    exact ⟨hpos, fun span hspan h => hg (hs.groups hpos hspan h)⟩

theorem InOrder.of_atom (ho : i.times.Ordered) (hi : ∀ what, i.atom ≠ .consume what) :
    p.InOrder pc i where
  ordered := ho
  refs h := absurd h (hi _)

section Groups

variable (hp : p.WellFormed) (hg : 1 ≤ g) (hspan : p.groups[g]? = some span)

include hp hg hspan

theorem exists_markers : span.start < span.stop ∧ ∃ times,
    p.insts[span.start]? = some ⟨.enter g, times⟩ ∧
      p.insts[span.stop]? = some ⟨.leave g, times⟩ := by
  obtain ⟨-, hgroups, -⟩ := defect?_eq_none_iff.mp hp.sound
  obtain ⟨hlt, -⟩ := groupDefect?_eq_none_iff.mp (hgroups g span hg hspan)
  have hle : g ≤ p.groupCount := Nat.le_sub_one_of_lt (Array.getElem?_eq_some_iff.mp hspan).1
  obtain ⟨span', times, hspan', henter, hleave⟩ := hp.marked hg hle
  obtain rfl := Option.some.inj (hspan.symm.trans hspan')
  exact ⟨hlt, times, (henter _ _).mpr ⟨rfl, rfl⟩, (hleave _ _).mpr ⟨rfl, rfl⟩⟩

theorem ne_start_of_inst (hi : p.insts[pc]? = some i) (hne : i.atom ≠ .enter g) :
    pc ≠ span.start := by
  rintro rfl
  obtain ⟨-, times, henter, -⟩ := exists_markers hp hg hspan
  obtain rfl := Option.some.inj (hi.symm.trans henter)
  exact hne rfl

theorem ne_stop_of_inst (hi : p.insts[pc]? = some i) (hne : i.atom ≠ .leave g) :
    pc ≠ span.stop := by
  rintro rfl
  obtain ⟨-, times, -, hleave⟩ := exists_markers hp hg hspan
  obtain rfl := Option.some.inj (hi.symm.trans hleave)
  exact hne rfl

theorem apart (hg' : 1 ≤ g') (hspan' : p.groups[g']? = some span') (hne : g ≠ g') :
    span.stop < span'.start ∨ span'.stop < span.start ∨
      span.start < span'.start ∧ span'.stop < span.stop ∨
      span'.start < span.start ∧ span.stop < span'.stop := by
  by_cases hlt : g < g'
  · have hordered := hp.ordered hg hlt hspan hspan'
    obtain h | h := hp.nested hlt hspan hspan'
    · exact .inl h
    · exact .inr (.inr (.inl ⟨hordered, h.2⟩))
  · have hlt : g' < g := by omega
    have hordered := hp.ordered hg' hlt hspan' hspan
    obtain h | h := hp.nested hlt hspan' hspan
    · exact .inr (.inl h)
    · exact .inr (.inr (.inr ⟨hordered, h.2⟩))

end Groups

namespace Passes

theorem nil (p : Program) (around : List Nat) (a : Nat) : p.Passes around a a :=
  fun hs => ⟨hs, fun _ _ ha hb => by omega⟩

theorem append (h : p.Passes around a c) (h' : p.Passes around c b) : p.Passes around a b := by
  intro hs
  obtain ⟨hmid, hfirst⟩ := h hs
  obtain ⟨hlast, hsecond⟩ := h' hmid
  refine ⟨hlast, fun pc i ha hb hi => ?_⟩
  by_cases hc : pc < c
  · exact hfirst pc i ha hc hi
  · exact hsecond pc i (Nat.le_of_not_lt hc) hb hi

variable (hp : p.WellFormed)

include hp

/-- What is around the next place is around this one, unless a group starts here. -/
theorem around_of_succ (hg : 1 ≤ g) (hspan : p.groups[g]? = some span)
    (hi : p.insts[a]? = some i) (hne : i.atom ≠ .enter g) (h : span.Around (a + 1)) :
    span.Around a := by
  have hstart := ne_start_of_inst hp hg hspan hi hne
  unfold GroupSpan.Around at h ⊢
  omega

theorem inst (hi : p.insts[a]? = some i) (hne : ∀ g, i.atom ≠ .enter g)
    (h : p.Surrounded a around → p.InOrder a i) : p.Passes around a (a + 1) := by
  intro hs
  refine ⟨⟨hs.whole, fun hg hspan h => hs.groups hg hspan ?_⟩, fun pc j ha hb hj => ?_⟩
  · exact around_of_succ hp hg hspan hi (hne _) h
  · obtain rfl : pc = a := by omega
    obtain rfl := Option.some.inj (hi.symm.trans hj)
    exact h hs

theorem ofAtom {atom : Atom} (hi : p.insts[a]? = some (.ofAtom atom))
    (he : ∀ g, atom ≠ .enter g) (hc : ∀ what, atom ≠ .consume what) :
    p.Passes around a (a + 1) :=
  .inst hp hi he fun _ => .of_atom Reader.ordered_once hc

theorem group (hi : p.insts[a]? = some ⟨.enter n, times⟩) (ho : times.Ordered)
    (hbody : p.Passes (n :: around) (a + 1) c) (hl : p.insts[c]? = some ⟨.leave n, times⟩)
    (hg : p.groups[n]? = some ⟨a, c⟩) : p.Passes around a (c + 1) := by
  intro hs
  have hopened : p.Surrounded (a + 1) (n :: around) := by
    refine ⟨List.mem_cons_of_mem n hs.whole, fun {g span} hg hspan h => ?_⟩
    by_cases hn : g = n
    · exact hn ▸ List.mem_cons_self
    · have hne : (⟨.enter n, times⟩ : Inst).atom ≠ .enter g := by simpa using Ne.symm hn
      exact List.mem_cons_of_mem n (hs.groups hg hspan (around_of_succ hp hg hspan hi hne h))
  obtain ⟨hlast, hinside⟩ := hbody hopened
  refine ⟨⟨hs.whole, fun {g span} hpos hspan h => ?_⟩, fun pc i ha hb hpc => ?_⟩
  · have hmem := hlast.groups hpos hspan
      (around_of_succ hp hpos hspan hl (by simp) h)
    obtain rfl | hmem := List.mem_cons.mp hmem
    · obtain rfl := Option.some.inj (hg.symm.trans hspan)
      exact absurd h.2 (Nat.not_succ_le_self c)
    · exact hmem
  · by_cases hfirst : pc = a
    · subst hfirst
      obtain rfl := Option.some.inj (hi.symm.trans hpc)
      exact .of_atom ho (by simp)
    · by_cases hend : pc = c
      · subst hend
        obtain rfl := Option.some.inj (hl.symm.trans hpc)
        exact .of_atom ho (by simp)
      · exact hinside pc i (by omega) (by omega) hpc

end Passes

theorem passes_of_laid (hp : p.WellFormed) {part : Part} (h : Laid p t part a b)
    (hproper : part.Proper around) : p.Passes around a b := by
  induction h generalizing around with
  | done | bar => exact .nil p around _
  | run hcs hi hrest ih =>
    refine Passes.append (.inst hp hi (by simp [Inst.ofAtom]) fun hs => ?_)
      (ih (Pattern.proper_of_chars hproper))
    exact .of_refs Reader.ordered_once hs (by simp [Target.refs_literal])
  | @leaf what times rest n a b hi hrest ih =>
    obtain ⟨hwhat, ho, hproper⟩ := hproper
    refine Passes.append (.inst hp hi (by simp) fun hs => .of_refs ho hs fun g hg => ?_)
      (ih hproper)
    rw [Target.refs_consumer] at hg
    cases what with
    | backRef g' =>
      obtain rfl := List.mem_singleton.mp hg
      exact hwhat
    | char | any | bracket => cases hg
  | assert hi hrest ih =>
    exact Passes.append (.ofAtom hp hi (by simp) (by simp)) (ih hproper)
  | group hi hbody hl hg hrest ihbody ihrest =>
    obtain ⟨hbody, ho, hproper⟩ := hproper
    exact Passes.append (.group hp hi ho (ihbody hbody) hl hg) (ihrest hproper)
  | only _ _ ih | headed _ ih => exact ih hproper
  | last _ hi hd _ he ih =>
    have hhead : p.Passes around _ _ := .ofAtom hp hi (by simp) (by simp)
    exact (hhead.append (ih hproper)).append (.ofAtom hp he (by simp) (by simp))
  | more hafter hi hd _ hj _ _ _ ihseq ihchain =>
    have hhead : p.Passes around _ _ := .ofAtom hp hi (by simp) (by simp)
    have hlater := ihchain (Pattern.proper_of_afterBar hafter hproper)
    exact ((hhead.append (ihseq hproper)).append (.ofAtom hp hj (by simp) (by simp))).append hlater

/-- What a compiled program provides besides its structure: markers name groups, every instruction is
in order, and the end of an alternative is followed by the head of the next one. -/
structure Structured (p : Program) : Prop where
  wellFormed : p.WellFormed
  enter {pc g : Nat} {times : Repetition} (hi : p.insts[pc]? = some ⟨.enter g, times⟩) :
    1 ≤ g ∧ g ≤ p.groupCount
  leave {pc g : Nat} {times : Repetition} (hi : p.insts[pc]? = some ⟨.leave g, times⟩) :
    1 ≤ g ∧ g ≤ p.groupCount
  join {pc g : Nat} {times : Repetition} (hi : p.insts[pc]? = some ⟨.join g, times⟩) :
    ∃ d, p.insts[pc + 1]? = some (.ofAtom (.branch (d + 1)))
  accept {pc : Nat} {times : Repetition} (hi : p.insts[pc]? = some ⟨.accept, times⟩) :
    pc + 1 = p.insts.size
  inOrder {pc : Nat} {i : Inst} (hi : p.insts[pc]? = some i) : p.InOrder pc i

namespace Structured

variable (hp : p.Structured)

include hp

theorem enter_eq (hi : p.insts[pc]? = some ⟨.enter g, times⟩) (hspan : p.groups[g]? = some span) :
    pc = span.start := by
  obtain ⟨hg, hle⟩ := hp.enter hi
  obtain ⟨span', times', hspan', henter, -⟩ := hp.wellFormed.marked hg hle
  obtain rfl := Option.some.inj (hspan.symm.trans hspan')
  exact ((henter pc times).mp hi).1

theorem leave_eq (hi : p.insts[pc]? = some ⟨.leave g, times⟩) (hspan : p.groups[g]? = some span) :
    pc = span.stop := by
  obtain ⟨hg, hle⟩ := hp.leave hi
  obtain ⟨span', times', hspan', -, hleave⟩ := hp.wellFormed.marked hg hle
  obtain rfl := Option.some.inj (hspan.symm.trans hspan')
  exact ((hleave pc times).mp hi).1

theorem not_around_of_accept (hi : p.insts[pc]? = some ⟨.accept, times⟩) (hg : 1 ≤ g)
    (hspan : p.groups[g]? = some span) : ¬span.Around pc := by
  have hlast := hp.accept hi
  have hne := ne_stop_of_inst hp.wellFormed hg hspan hi (by simp)
  obtain ⟨-, times', -, hleave⟩ := exists_markers hp.wellFormed hg hspan
  have hlt := (Array.getElem?_eq_some_iff.mp hleave).1
  unfold GroupSpan.Around
  omega

end Structured

theorem enter_bounds (t : Target) (q : Pattern)
    (hi : (ofPattern t q).insts[pc]? = some ⟨.enter g, times⟩) :
    1 ≤ g ∧ g ≤ (ofPattern t q).groupCount := by
  have hmem := (opens_code_perm t q).mem_iff.mp
    (List.mem_filterMap.mpr ⟨_, (Array.mem_of_getElem? hi).val, rfl⟩)
  rw [List.mem_range'_1] at hmem
  rw [groupCount, size_groups_ofPattern]
  omega

theorem leave_bounds (t : Target) (q : Pattern)
    (hi : (ofPattern t q).insts[pc]? = some ⟨.leave g, times⟩) :
    1 ≤ g ∧ g ≤ (ofPattern t q).groupCount := by
  have hmarked := (marked_ofPattern t q).leave hi
  obtain ⟨span, hspan, rfl⟩ := Option.map_eq_some_iff.mp hmarked
  have hlt := (Array.getElem?_eq_some_iff.mp hspan).1
  obtain ⟨stop, -, haccept, -⟩ := laid_ofPattern t q
  have hne : g ≠ 0 := by
    rintro rfl
    obtain rfl := Option.some.inj ((groups_zero_ofPattern haccept).symm.trans hspan)
    rw [haccept] at hi
    cases hi
  rw [groupCount]
  omega

theorem structured_of_compile {o : Options} {l : Locale} {limits : CompileLimits}
    {text : List Char} (h : compile o l limits text = .ok p) : p.Structured := by
  obtain ⟨q, hq, rfl⟩ := exists_ofPattern h
  have hp := wellFormed_of_compile h
  obtain ⟨stop, hlaid, haccept, hsize⟩ := laid_ofPattern ⟨o, l, limits.run⟩ q
  have hstart : (ofPattern ⟨o, l, limits.run⟩ q).Surrounded 0 [0] :=
    ⟨List.mem_singleton_self 0, fun _ _ h => absurd h.1 (Nat.not_lt_zero _)⟩
  obtain ⟨-, hall⟩ := passes_of_laid hp hlaid (Pattern.proper_whole_of_read hq) hstart
  have hlast {pc : Nat} {i : Inst} (hi : (ofPattern ⟨o, l, limits.run⟩ q).insts[pc]? = some i) :
      pc < stop ∨ i = .ofAtom .accept := by
    have hlt := (Array.getElem?_eq_some_iff.mp hi).1
    by_cases hstop : pc = stop
    · subst hstop
      exact .inr (Option.some.inj (hi.symm.trans haccept))
    · exact .inl (by omega)
  refine ⟨hp, enter_bounds _ q, leave_bounds _ q, fun hi => ?_, ?_, fun hi => ?_⟩
  · obtain hlt | hi' := hlast hi
    · obtain ⟨-, d, -, -, hhead⟩ := hlaid.join_forward (Nat.zero_le _) hlt hi
      exact ⟨d, hhead⟩
    · cases hi'
  · intro pc times hi
    have hstop := field_groups_ofPattern stop_placeMarker (closes_code_perm _ q) hi rfl
    rw [groups_zero_ofPattern haccept] at hstop
    obtain rfl : stop = pc := Option.some.inj hstop
    exact hsize.symm
  · obtain hlt | rfl := hlast hi
    · exact hall _ _ (Nat.zero_le _) hlt hi
    · exact .of_atom Reader.ordered_once (by simp [Inst.ofAtom])

end Program

end PosixRegex
