import PosixRegex.Proofs.Program.Stretch

namespace PosixRegex

namespace Program

/-- The instructions of a group without its markers, from the first one up to the marker at its
end. The whole program has no marker in front. -/
def scope? (p : Program) (g : Nat) : Option GroupSpan :=
  p.groups[g]?.map fun span => ⟨if g = 0 then span.start else span.start + 1, span.stop⟩

/-- The scope that an instruction belongs to. All others around the instruction are around that
scope, too. -/
def BelongsTo (p : Program) (pc g : Nat) : Prop :=
  ∃ scope, p.scope? g = some scope ∧ scope.start ≤ pc ∧ pc < scope.stop ∧
    ∀ g' around, p.scope? g' = some around → around.start ≤ pc → pc < around.stop →
      around.start ≤ scope.start ∧ scope.stop ≤ around.stop

structure WellFormed (p : Program) : Prop where
  sound : p.defect? = none
  /-- Each group is opened once and closed once, where the table says. -/
  marked {g : Nat} (hg : 1 ≤ g) (hle : g ≤ p.groupCount) : ∃ span times,
    p.groups[g]? = some span ∧
    (∀ pc times', p.insts[pc]? = some ⟨.enter g, times'⟩ ↔ pc = span.start ∧ times' = times) ∧
    ∀ pc times', p.insts[pc]? = some ⟨.leave g, times'⟩ ↔ pc = span.stop ∧ times' = times
  ordered {g g' : Nat} {span span' : GroupSpan} (hg : 1 ≤ g) (hlt : g < g')
    (h : p.groups[g]? = some span) (h' : p.groups[g']? = some span') : span.start < span'.start
  /-- A later group lies behind an earlier one or inside of it. -/
  nested {g g' : Nat} {span span' : GroupSpan} (hlt : g < g')
    (h : p.groups[g]? = some span) (h' : p.groups[g']? = some span') :
    span.stop < span'.start ∨ span.start ≤ span'.start ∧ span'.stop < span.stop
  /-- Each head and each mark behind the last alternative is in the chain of one scope, which
  starts with the first instruction of that scope and ends in front of the marker at its end. -/
  chained {pc : Nat} {i : Inst} (hi : p.insts[pc]? = some i) (h : i.isBranch = true) :
    ∃! g, ∃ scope marks, p.scope? g = some scope ∧ p.Chain g scope.start marks scope.stop ∧
      pc ∈ marks ∧ ∀ k ∈ marks, p.BelongsTo k g

variable {p : Program} {pc g g' stop : Nat} {span : GroupSpan} {marks : List Nat}
  {times : Repetition}

theorem BelongsTo.unique
    (hcloses : ∀ g span, p.groups[g]? = some span → p.ClosesAt span.stop g)
    (h : p.BelongsTo pc g) (h' : p.BelongsTo pc g') : g = g' := by
  obtain ⟨scope, hs, hstart, hstop, hinner⟩ := h
  obtain ⟨scope', hs', hstart', hstop', hinner'⟩ := h'
  obtain ⟨-, hle⟩ := hinner g' scope' hs' hstart' hstop'
  obtain ⟨-, hle'⟩ := hinner' g scope hs hstart hstop
  obtain ⟨span, hg, rfl⟩ := Option.map_eq_some_iff.mp hs
  obtain ⟨span', hg', rfl⟩ := Option.map_eq_some_iff.mp hs'
  have hends : span.stop = span'.stop := Nat.le_antisymm hle hle'
  exact (hcloses g span hg).unique (hends ▸ hcloses g' span' hg')

theorem scope?_of_pos (hg : 1 ≤ g) (h : p.groups[g]? = some span) :
    p.scope? g = some ⟨span.start + 1, span.stop⟩ := by
  rw [scope?, h, Option.map_some, if_neg (by omega)]

theorem scope?_zero (h : p.groups[0]? = some span) : p.scope? 0 = some span := by
  rw [scope?, h]
  rfl

section

variable (h : p.Stretch 1 p.groups.size 0 stop marks) (hwhole : p.groups[0]? = some ⟨0, stop⟩)

include h hwhole

theorem belongsTo_zero {k : Nat} (hk : k ∈ marks) : p.BelongsTo k 0 := by
  obtain ⟨-, hlt, hclear⟩ := h.free hk
  refine ⟨⟨0, stop⟩, scope?_zero hwhole, Nat.zero_le k, hlt, fun g around hg hstart hstop => ?_⟩
  by_cases hzero : g = 0
  · subst hzero
    obtain rfl := Option.some.inj ((scope?_zero hwhole).symm.trans hg)
    exact ⟨Nat.le_refl _, Nat.le_refl _⟩
  · obtain ⟨span, hspan, rfl⟩ := Option.map_eq_some_iff.mp hg
    have hsize := (Array.getElem?_eq_some_iff.mp hspan).1
    have hapart := hclear g span (by omega) hsize hspan
    simp only [if_neg hzero] at hstart hstop
    omega

theorem belongsTo_of_clear {k : Nat} (hg : 1 ≤ g) (hspan : p.groups[g]? = some span)
    (hstart : span.start + 1 ≤ k) (hstop : k < span.stop)
    (hclear : p.Clear (g + 1) p.groups.size k) : p.BelongsTo k g := by
  refine ⟨_, scope?_of_pos hg hspan, hstart, hstop, fun g' around hg' hstart' hstop' => ?_⟩
  have hsize := (Array.getElem?_eq_some_iff.mp hspan).1
  obtain ⟨span', hspan', rfl⟩ := Option.map_eq_some_iff.mp hg'
  have hsize' := (Array.getElem?_eq_some_iff.mp hspan').1
  by_cases hzero : g' = 0
  · subst hzero
    obtain rfl := Option.some.inj (hwhole.symm.trans hspan')
    obtain ⟨-, -, hlt⟩ := h.marked hg hsize hspan
    exact ⟨Nat.zero_le _, Nat.le_of_lt hlt⟩
  · simp only [if_neg hzero] at hstart' hstop' ⊢
    by_cases hlater : g < g'
    · have hapart := hclear g' span' hlater hsize' hspan'
      omega
    · by_cases hsame : g' = g
      · subst hsame
        obtain rfl := Option.some.inj (hspan.symm.trans hspan')
        exact ⟨Nat.le_refl _, Nat.le_refl _⟩
      · have hnested := h.nested (by omega) (show g' < g by omega) hsize hspan' hspan
        omega

theorem exists_chain (hmarks : marks = [] ∨ p.Chain 0 0 marks stop) {i : Inst} (hlt : pc < stop)
    (hi : p.insts[pc]? = some i) (hbranch : i.isBranch = true) :
    ∃ g scope marks, p.scope? g = some scope ∧ p.Chain g scope.start marks scope.stop ∧
      pc ∈ marks ∧ ∀ k ∈ marks, p.BelongsTo k g := by
  obtain hmem | ⟨g, span, marks, hg, -, hspan, hchain, hmem, hclear⟩ :=
    h.chained (Nat.zero_le pc) hlt hi hbranch
  · obtain rfl | hchain := hmarks
    · cases hmem
    · exact ⟨0, ⟨0, stop⟩, marks, scope?_zero hwhole, hchain, hmem,
        fun k hk => belongsTo_zero h hwhole hk⟩
  · refine ⟨g, _, marks, scope?_of_pos hg hspan, hchain, hmem, fun k hk => ?_⟩
    obtain ⟨hstart, hstop⟩ := hchain.bounds hk
    exact belongsTo_of_clear h hwhole hg hspan hstart hstop (hclear k hk)

theorem nested_of_stretch {span' : GroupSpan} (hlt : g < g') (hspan : p.groups[g]? = some span)
    (hspan' : p.groups[g']? = some span') :
    span.stop < span'.start ∨ span.start ≤ span'.start ∧ span'.stop < span.stop := by
  have hsize := (Array.getElem?_eq_some_iff.mp hspan').1
  by_cases hzero : g = 0
  · subst hzero
    obtain rfl := Option.some.inj (hwhole.symm.trans hspan)
    obtain ⟨-, -, hstop⟩ := h.marked hlt hsize hspan'
    exact Or.inr ⟨Nat.zero_le _, hstop⟩
  · have hnested := h.nested (by omega) hlt hsize hspan hspan'
    omega

theorem defect?_of_stretch (hsize : p.insts.size = stop + 1)
    (hcount : p.groups.size ≤ UInt16.size)
    (haccept : p.insts[stop]? = some ⟨.accept, times⟩) : p.defect? = none := by
  refine defect?_eq_none_iff.mpr ⟨?_, fun g span hg hspan => ?_, fun pc i hi => ?_⟩
  · exact frameDefect?_eq_none_iff.mpr ⟨stop, times, hsize, haccept, hwhole⟩
  · have hlt := (Array.getElem?_eq_some_iff.mp hspan).1
    rw [Nat.mod_eq_of_lt (Nat.lt_of_lt_of_le hlt hcount)]
    exact (h.marked hg hlt hspan).1
  · have hlt := (Array.getElem?_eq_some_iff.mp hi).1
    by_cases hlast : pc = stop
    · subst hlast
      obtain rfl := Option.some.inj (haccept.symm.trans hi)
      rfl
    · exact h.sound (Nat.zero_le pc) (by omega) hi

theorem closesAt_of_stretch (haccept : p.insts[stop]? = some ⟨.accept, times⟩) (g : Nat)
    (span : GroupSpan) (hspan : p.groups[g]? = some span) : p.ClosesAt span.stop g := by
  by_cases hzero : g = 0
  · subst hzero
    obtain rfl := Option.some.inj (hspan.symm.trans hwhole)
    exact ⟨_, haccept, rfl⟩
  · obtain ⟨hmarks, -⟩ := h.marked (by omega) (Array.getElem?_eq_some_iff.mp hspan).1 hspan
    obtain ⟨-, times, -, hi⟩ := groupDefect?_eq_none_iff.mp hmarks
    exact ⟨_, hi, rfl⟩

omit h hwhole in
theorem Marked.unique (hm : p.Marked) (hspan : p.groups[g]? = some span)
    (hnone : p.groupDefect? g span = none) : ∃ times,
    (∀ pc times', p.insts[pc]? = some ⟨.enter g, times'⟩ ↔ pc = span.start ∧ times' = times) ∧
    ∀ pc times', p.insts[pc]? = some ⟨.leave g, times'⟩ ↔ pc = span.stop ∧ times' = times := by
  obtain ⟨-, times, he, hl⟩ := groupDefect?_eq_none_iff.mp hnone
  refine ⟨times, fun pc times' => ⟨fun hi => ?_, ?_⟩, fun pc times' => ⟨fun hi => ?_, ?_⟩⟩
  · have hstart := hm.enter hi
    rw [hspan] at hstart
    obtain rfl := Option.some.inj hstart
    exact ⟨rfl, congrArg Inst.times (Option.some.inj (hi.symm.trans he))⟩
  · rintro ⟨rfl, rfl⟩
    exact he
  · have hstop := hm.leave hi
    rw [hspan] at hstop
    obtain rfl := Option.some.inj hstop
    exact ⟨rfl, congrArg Inst.times (Option.some.inj (hi.symm.trans hl))⟩
  · rintro ⟨rfl, rfl⟩
    exact hl

theorem wellFormed_of_stretch (hsize : p.insts.size = stop + 1)
    (hcount : p.groups.size ≤ UInt16.size)
    (haccept : p.insts[stop]? = some ⟨.accept, times⟩)
    (hmarks : marks = [] ∨ p.Chain 0 0 marks stop) (hm : p.Marked) : p.WellFormed where
  sound := defect?_of_stretch h hwhole hsize hcount haccept
  marked {g} hg hle := by
    have hpos : 0 < p.groups.size := (Array.getElem?_eq_some_iff.mp hwhole).1
    have hlt : g < p.groups.size := by
      rw [groupCount] at hle
      omega
    have hspan := Array.getElem?_eq_getElem hlt
    obtain ⟨times, hmarkers⟩ := hm.unique hspan (h.marked hg hlt hspan).1
    exact ⟨_, times, hspan, hmarkers⟩
  ordered hg hlt hspan hspan' :=
    (h.nested hg hlt (Array.getElem?_eq_some_iff.mp hspan').1 hspan hspan').1
  nested hlt hspan hspan' := nested_of_stretch h hwhole hlt hspan hspan'
  chained {pc i} hi hbranch := by
    have hne : pc ≠ stop := by
      rintro rfl
      obtain rfl := Option.some.inj (haccept.symm.trans hi)
      cases hbranch
    have hlt := (Array.getElem?_eq_some_iff.mp hi).1
    obtain ⟨g, hg⟩ := exists_chain h hwhole hmarks (by omega) hi hbranch
    refine ⟨g, hg, ?_⟩
    rintro g' ⟨scope', marks', -, -, hmem', hbelongs'⟩
    obtain ⟨scope, marks, -, -, hmem, hbelongs⟩ := hg
    exact (hbelongs' pc hmem').unique (closesAt_of_stretch h hwhole haccept) (hbelongs pc hmem)

end

variable {t : Target} {q : Pattern}

theorem groups_zero_ofPattern (haccept : (ofPattern t q).insts[stop]? = some (.ofAtom .accept)) :
    (ofPattern t q).groups[0]? = some ⟨0, stop⟩ := by
  have hopens : ∀ x ∈ (q.code t).zipIdx, x.1.opens? ≠ some 0 := by
    intro x hx hzero
    have hmem := (opens_code_perm t q).mem_iff.mp
      (List.mem_filterMap.mpr ⟨x.1, List.fst_mem_of_mem_zipIdx hx, hzero⟩)
    rw [List.mem_range'_1] at hmem
    omega
  have hstart : (ofPattern t q).groups[0]?.map GroupSpan.start = some 0 := by
    change (groupSpans (q.code t) q.groupCount)[0]?.map GroupSpan.start = some 0
    rw [groupSpans, field_foldl_of_not_mem start_placeMarker _ hopens]
    simp
  have hstop := field_groups_ofPattern stop_placeMarker (closes_code_perm t q) haccept rfl
  obtain ⟨⟨start', stop'⟩, hg, rfl⟩ := Option.map_eq_some_iff.mp hstart
  rw [hg] at hstop ⊢
  obtain rfl : stop' = stop := Option.some.inj hstop
  rfl

theorem closesAt_ofPattern (hg : (ofPattern t q).groups[g]? = some span) :
    (ofPattern t q).ClosesAt span.stop g := by
  have hlt := (Array.getElem?_eq_some_iff.mp hg).1
  rw [size_groups_ofPattern] at hlt
  have hmem : g ∈ (q.code t).filterMap Inst.closes? := by
    rw [(closes_code_perm t q).mem_iff, List.mem_range'_1]
    omega
  obtain ⟨i, hi, hclose⟩ := List.mem_filterMap.mp hmem
  obtain ⟨pc, hpc⟩ := List.mem_iff_getElem?.mp hi
  have hinst : (ofPattern t q).insts[pc]? = some i := by simpa [ofPattern] using hpc
  have hstop := field_groups_ofPattern stop_placeMarker (closes_code_perm t q) hinst hclose
  rw [hg] at hstop
  exact ⟨i, Option.some.inj hstop ▸ hinst, hclose⟩

theorem wellFormed_ofPattern (hq : q.Numbered) : (ofPattern t q).WellFormed := by
  obtain ⟨stop, hlaid, haccept, hsize⟩ := laid_ofPattern t q
  have hcount := size_groups_ofPattern t q
  have hknown : ∀ g ∈ (Part.alts q 1).refs, g < (ofPattern t q).groups.size := by
    intro g hg
    have := hq.refs g hg
    omega
  obtain ⟨marks, h, hmarks⟩ :=
    holds_of_laid (fun g span => closesAt_ofPattern) hlaid hknown 0 ⟨_, haccept, rfl⟩
  rw [Nat.add_comm, ← hcount] at h
  have hnumbers : (ofPattern t q).groups.size ≤ UInt16.size := by
    rw [hcount]
    exact Nat.succ_le_succ hq.count
  exact wellFormed_of_stretch h (groups_zero_ofPattern haccept) hsize hnumbers haccept hmarks
    (marked_ofPattern t q)

/-- Every compiled program is well formed. -/
theorem wellFormed_of_compile {o : Options} {l : Locale} {limits : CompileLimits}
    {text : List Char} (h : compile o l limits text = .ok p) : p.WellFormed := by
  obtain ⟨q, hq, rfl⟩ := exists_ofPattern h
  exact wellFormed_ofPattern (Pattern.numbered_of_read hq)

def intricate : Pattern :=
  .group (.leaf (.char 'a') .once (.bar
    (.group (.leaf (.char 'b') .once (.bar (.leaf (.char 'c') .once .done))) .star .done)))
    .once (.bar (.leaf (.char 'd') .once .done))

theorem wellFormed_of_compile_intricate :
    (ofPattern ⟨{ dialect := .extended }, .posix, 255⟩ intricate).WellFormed :=
  wellFormed_of_compile
    (show compile { dialect := .extended } .posix {}
        ['(', 'a', '|', '(', 'b', '|', 'c', ')', '*', ')', '|', 'd']
      = .ok (ofPattern ⟨{ dialect := .extended }, .posix, 255⟩ intricate) by decide)

end Program

end PosixRegex
