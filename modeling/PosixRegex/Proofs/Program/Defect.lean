import PosixRegex.Program.Defect

namespace PosixRegex

def Consumer.refs : Consumer → List Nat
  | backRef g | backRefFold g => [g]
  | _ => []

namespace Program

variable {p : Program} {pc g d : Nat} {times : Repetition} {span : GroupSpan}

theorem frameDefect?_eq_none_iff : p.frameDefect? = none ↔
    ∃ stop times, p.insts.size = stop + 1 ∧ p.insts[stop]? = some ⟨.accept, times⟩ ∧
      p.groups[0]? = some ⟨0, stop⟩ := by
  unfold frameDefect?
  rw [Array.back?_eq_getElem?]
  constructor
  · intro h
    cases hlast : p.insts[p.insts.size - 1]? with
    | none =>
      rw [hlast] at h
      cases h
    | some final =>
      obtain ⟨atom, times⟩ := final
      have hlt := (Array.getElem?_eq_some_iff.mp hlast).1
      simp only [hlast] at h
      split at h
      · cases h
      · rename_i haccept
        split at h
        · cases h
        · rename_i hspan
          obtain rfl : atom = .accept := by simpa using haccept
          exact ⟨p.insts.size - 1, times, by omega, hlast, by simpa using hspan⟩
  · rintro ⟨stop, times, hsize, hi, hg⟩
    rw [hsize, Nat.add_sub_cancel, hi, hg]
    simp

theorem groupDefect?_eq_none_iff : p.groupDefect? g span = none ↔
    span.start < span.stop ∧ ∃ times, p.insts[span.start]? = some ⟨.enter g, times⟩ ∧
      p.insts[span.stop]? = some ⟨.leave g, times⟩ := by
  unfold groupDefect?
  constructor
  · intro h
    split at h
    · rename_i first last hfirst hlast
      obtain ⟨atom, times⟩ := first
      obtain ⟨atom', times'⟩ := last
      split at h
      · cases h
      · rename_i hmarkers
        split at h
        · cases h
        · rename_i htimes
          obtain ⟨⟨hlt, rfl⟩, rfl⟩ :
              (span.start < span.stop ∧ atom = .enter g) ∧ atom' = .leave g := by
            simpa using hmarkers
          obtain rfl : times = times' := by simpa using htimes
          exact ⟨hlt, times, hfirst, hlast⟩
    · cases h
  · rintro ⟨hlt, times, hfirst, hlast⟩
    simp [hfirst, hlast, hlt]

theorem instDefect?_branch_eq_none_iff : p.instDefect? pc ⟨.branch (d + 1), times⟩ = none ↔
    ∃ next times', p.insts[pc + (d + 1)]? = some ⟨.branch next, times'⟩ := by
  simp only [instDefect?, ite_eq_left_iff, reduceCtorEq, imp_false, Decidable.not_not,
    Option.any_eq_true]
  constructor
  · rintro ⟨⟨atom, times'⟩, hi, hb⟩
    cases atom with
    | branch next => exact ⟨next, times', hi⟩
    | consume | assert | enter | leave | join | accept => cases hb
  · rintro ⟨next, times', hi⟩
    exact ⟨_, hi, rfl⟩

theorem instDefect?_join_eq_none_iff :
    p.instDefect? pc ⟨.join g, times⟩ = none ↔ g < p.groups.size := by
  simp [instDefect?]

theorem instDefect?_consume_eq_none_iff {what : Consumer} :
    p.instDefect? pc ⟨.consume what, times⟩ = none ↔ ∀ g ∈ what.refs, g < p.groups.size := by
  cases what with
  | backRef g | backRefFold g => simp [instDefect?, Consumer.refs]
  | literal | literalFold | text | textFold | any | anyButNewline | narrow | weighted =>
    simp [instDefect?, Consumer.refs]

theorem defect?_eq_none_iff : p.defect? = none ↔ p.frameDefect? = none ∧
    (∀ k span, 1 ≤ k → p.groups[k]? = some span →
      p.groupDefect? (k % UInt16.size) span = none) ∧
    ∀ pc i, p.insts[pc]? = some i → p.instDefect? pc i = none := by
  unfold defect?
  simp only [Option.or_eq_none_iff, List.findSome?_eq_none_iff, Prod.forall]
  refine and_congr_right fun _ => and_congr ?_ ?_
  · constructor
    · intro h k span hk hspan
      refine h span k ?_
      rw [List.mem_iff_getElem?]
      refine ⟨k - 1, ?_⟩
      rw [List.getElem?_drop, List.getElem?_zipIdx]
      simp [show 1 + (k - 1) = k by omega, hspan]
    · intro h span k hmem
      obtain ⟨n, hn⟩ := List.mem_iff_getElem?.mp hmem
      rw [List.getElem?_drop, List.getElem?_zipIdx] at hn
      grind
  · constructor
    · intro h pc i hi
      refine h i pc ?_
      rw [List.mem_zipIdx_iff_getElem?]
      simpa using hi
    · intro h i pc hmem
      exact h pc i (by simpa [List.mem_zipIdx_iff_getElem?] using hmem)

end Program
end PosixRegex
