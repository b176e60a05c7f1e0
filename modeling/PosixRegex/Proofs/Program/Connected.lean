import PosixRegex.Proofs.Program.WellFormed

namespace PosixRegex

/-- Wherever an instruction leads, there is an instruction. -/
structure Program.Connected (p : Program) : Prop where
  nonempty : 0 < p.insts.size
  whole : 0 < p.groups.size
  next {pc : Nat} {i : Inst} (hi : p.insts[pc]? = some i) (h : i.atom ≠ .accept) :
    pc + 1 < p.insts.size
  enter {pc g : Nat} {times : Repetition} (hi : p.insts[pc]? = some ⟨.enter g, times⟩) :
    ∃ span, p.groups[g]? = some span ∧ (times.min = 0 → span.stop + 1 < p.insts.size)
  leave {pc g : Nat} {times : Repetition} (hi : p.insts[pc]? = some ⟨.leave g, times⟩) :
    ∃ span, p.groups[g]? = some span ∧ span.start + 1 < p.insts.size
  join {pc g : Nat} {times : Repetition} (hi : p.insts[pc]? = some ⟨.join g, times⟩) :
    ∃ span, p.groups[g]? = some span ∧ span.stop < p.insts.size
  branch {pc d : Nat} {times : Repetition}
    (hi : p.insts[pc]? = some ⟨.branch (d + 1), times⟩) :
    ∃ next times', p.insts[pc + (d + 1)]? = some ⟨.branch next, times'⟩

/-- Whether an instruction that marks a group marks one of the first `count` ones. The whole program
is no group that may be skipped. -/
def Inst.namesGroup (count : Nat) (i : Inst) : Bool :=
  match i.atom with
  | .enter g => g < count && (i.times.min != 0 || g != 0)
  | .leave g => g < count
  | _ => true

namespace Program

variable {p : Program}

/-- Whether every marker names a group of the program. -/
def namesGroups (p : Program) : Bool := p.insts.toList.all (·.namesGroup p.groups.size)

theorem namesGroup_of_namesGroups (h : p.namesGroups = true) {pc : Nat} {i : Inst}
    (hi : p.insts[pc]? = some i) : i.namesGroup p.groups.size = true := by
  apply List.all_eq_true.mp h
  exact (Array.mem_of_getElem? hi).val

theorem connected_of_defect? (h : p.defect? = none) (hn : p.namesGroups = true) :
    p.Connected := by
  obtain ⟨hframe, hgroups, hinsts⟩ := defect?_eq_none_iff.mp h
  obtain ⟨stop, times, hsize, haccept, hwhole⟩ := frameDefect?_eq_none_iff.mp hframe
  have hnext {pc : Nat} {i : Inst} (hi : p.insts[pc]? = some i) (hne : i.atom ≠ .accept) :
      pc + 1 < p.insts.size := by
    have hlt := (Array.getElem?_eq_some_iff.mp hi).1
    have hlast : pc ≠ stop := by
      rintro rfl
      obtain rfl := Option.some.inj (haccept.symm.trans hi)
      exact hne rfl
    omega
  have hmarkers {g : Nat} {span : GroupSpan} (hg : g ≠ 0) (hspan : p.groups[g]? = some span) :
      span.start + 1 < p.insts.size ∧ span.stop + 1 < p.insts.size := by
    obtain ⟨-, times, he, hl⟩ :=
      groupDefect?_eq_none_iff.mp (hgroups g span (Nat.pos_of_ne_zero hg) hspan)
    exact ⟨hnext he (by simp), hnext hl (by simp)⟩
  refine ⟨by omega, (Array.getElem?_eq_some_iff.mp hwhole).1, hnext, ?_, ?_, ?_, ?_⟩
  · intro pc g times hi
    obtain ⟨hlt, hzero⟩ : g < p.groups.size ∧ (times.min = 0 → g ≠ 0) := by
      simpa [Inst.namesGroup, Decidable.imp_iff_not_or] using namesGroup_of_namesGroups hn hi
    have hspan := Array.getElem?_eq_getElem hlt
    exact ⟨_, hspan, fun hmin => (hmarkers (hzero hmin) hspan).2⟩
  · intro pc g times hi
    have hlt : g < p.groups.size := by
      simpa [Inst.namesGroup] using namesGroup_of_namesGroups hn hi
    obtain ⟨span, hspan⟩ : ∃ span, p.groups[g]? = some span := ⟨_, Array.getElem?_eq_getElem hlt⟩
    refine ⟨span, hspan, ?_⟩
    by_cases hg : g = 0
    · subst hg
      obtain rfl := Option.some.inj (hspan.symm.trans hwhole)
      exact Nat.lt_of_le_of_lt (Nat.le_add_left 1 pc) (hnext hi (by simp))
    · exact (hmarkers hg hspan).1
  · intro pc g times hi
    have hspan := Array.getElem?_eq_getElem (instDefect?_join_eq_none_iff.mp (hinsts pc _ hi))
    refine ⟨_, hspan, ?_⟩
    by_cases hg : g = 0
    · subst hg
      obtain heq := Option.some.inj (hspan.symm.trans hwhole)
      rw [heq, hsize]
      exact Nat.lt_succ_self stop
    · exact Nat.lt_of_succ_lt (hmarkers hg hspan).2
  · intro pc d times hi
    exact instDefect?_branch_eq_none_iff.mp (hinsts pc _ hi)

theorem namesGroups_ofPattern (t : Target) (q : Pattern) :
    (ofPattern t q).namesGroups = true := by
  apply List.all_eq_true.mpr
  intro i hcode
  obtain ⟨atom, times⟩ := i
  rw [size_groups_ofPattern]
  cases atom with
  | enter g =>
    have hmem := (opens_code_perm t q).mem_iff.mp (List.mem_filterMap.mpr ⟨_, hcode, rfl⟩)
    rw [List.mem_range'_1] at hmem
    simp only [Inst.namesGroup, Bool.and_eq_true, Bool.or_eq_true, bne_iff_ne, decide_eq_true_eq]
    omega
  | leave g =>
    have hmem := (closes_code_perm t q).mem_iff.mp (List.mem_filterMap.mpr ⟨_, hcode, rfl⟩)
    rw [List.mem_range'_1] at hmem
    simp only [Inst.namesGroup, decide_eq_true_eq]
    omega
  | consume | assert | branch | join | accept => rfl

theorem connected_of_compile {o : Options} {l : Locale} {limits : CompileLimits}
    {text : List Char} (h : compile o l limits text = .ok p) : p.Connected := by
  obtain ⟨q, hq, rfl⟩ := exists_ofPattern h
  have hp := wellFormed_ofPattern (t := ⟨o, l, limits.run⟩) (Pattern.numbered_of_read hq)
  exact connected_of_defect? hp.sound (namesGroups_ofPattern _ q)

end Program

end PosixRegex
