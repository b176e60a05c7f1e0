import PosixRegex.Proofs.Program.Surroundings
import PosixRegex.Proofs.Search.Paths

namespace PosixRegex

open Relation (ReflTransGen)

theorem GroupSpan.around_iff_succ {span : GroupSpan} {pc : Nat} (hstart : pc ≠ span.start)
    (hstop : pc ≠ span.stop) : span.Around pc ↔ span.Around (pc + 1) := by
  unfold Around
  omega

namespace Program

variable {p : Program} {g s pc k k' a b d : Nat} {span : GroupSpan} {marks : List Nat}
  {times : Repetition}

theorem BelongsTo.around (hk : p.BelongsTo k s) (hk' : p.BelongsTo k' s) (hg : 1 ≤ g)
    (hspan : p.groups[g]? = some span) (hne : k ≠ span.stop) (h : span.Around k) :
    span.start < k' ∧ k' < span.stop := by
  obtain ⟨scope, hs, -, -, hout⟩ := hk
  obtain ⟨scope', hs', hstart', hstop', -⟩ := hk'
  obtain rfl := Option.some.inj (hs.symm.trans hs')
  unfold GroupSpan.Around at h
  have hin := hout g _ (scope?_of_pos hg hspan) (by simp only; omega) (by simp only; omega)
  simp only at hin
  omega

theorem BelongsTo.around_iff_stop {span' : GroupSpan} (hw : p.WellFormed) (hk : p.BelongsTo k s)
    (hspan' : p.groups[s]? = some span') (hg : 1 ≤ g) (hspan : p.groups[g]? = some span)
    (hne : k ≠ span.stop) : span.Around k ↔ span.Around span'.stop := by
  obtain ⟨scope, hs, hstart, hstop, hout⟩ := hk
  obtain rfl : ⟨if s = 0 then span'.start else span'.start + 1, span'.stop⟩ = scope := by
    simpa [scope?, hspan'] using hs
  simp only at hstart hstop hout
  unfold GroupSpan.Around
  constructor
  · intro h
    have hin := hout g _ (scope?_of_pos hg hspan) (by simp only; omega) (by simp only; omega)
    simp only at hin
    omega
  · intro h
    by_cases hzero : s = 0
    · subst hzero
      have hnested := hw.nested (by omega) hspan' hspan
      omega
    · rw [if_neg hzero] at hstart
      by_cases hsame : g = s
      · subst hsame
        obtain rfl := Option.some.inj (hspan.symm.trans hspan')
        omega
      · have hapart := apart hw hg hspan (by omega) hspan' hsame
        omega

namespace Chain

theorem start_mem (h : p.Chain g a marks b) : a ∈ marks := by
  cases h with
  | last | more => exact List.mem_cons_self

theorem next_mem (h : p.Chain g a marks b) (hk : k ∈ marks)
    (hi : p.insts[k]? = some ⟨.branch (d + 1), times⟩) : k + (d + 1) ∈ marks := by
  induction h with
  | @last pc d' hhead he =>
    obtain rfl | rfl : k = pc ∨ k = pc + (d' + 1) := by simpa using hk
    · rw [hhead] at hi
      cases hi
      simp
    · rw [he] at hi
      cases hi
  | @more pc d' stop marks hhead hj hrest ih =>
    obtain rfl | hk := List.mem_cons.mp hk
    · rw [hhead] at hi
      cases hi
      exact List.mem_cons_of_mem k hrest.start_mem
    · exact List.mem_cons_of_mem pc (ih hk)

/-- Behind the end of an alternative of the chain the scope that it joins is that of the chain. -/
theorem join_eq {g' : Nat} (h : p.Chain g a marks b) (hk : k + 1 ∈ marks) (hne : k + 1 ≠ a)
    (hi : p.insts[k + 1]? = some (.ofAtom (.branch (d + 1))))
    (hj : p.insts[k]? = some ⟨.join g', times⟩) : g' = g := by
  induction h with
  | @last pc d' hhead he =>
    obtain h | h : k + 1 = pc ∨ k + 1 = pc + (d' + 1) := by simpa using hk
    · exact absurd h hne
    · rw [h, he] at hi
      cases hi
  | @more pc d' stop marks hhead hjoin hrest ih =>
    obtain h | hk := List.mem_cons.mp hk
    · exact absurd h hne
    · by_cases hnext : k + 1 = pc + (d' + 1)
      · obtain rfl : k = pc + d' := by omega
        rw [hjoin] at hj
        cases hj
        rfl
      · exact ih hk hnext

end Chain

end Program

namespace Matcher

variable {m : Matcher} {pc pc' g : Nat} {span : GroupSpan} {t t' : Thread}

theorem headDistance_eq_ok {d : Nat} (h : m.headDistance pc = .ok d) :
    ∃ times, m.program.insts[pc]? = some ⟨.branch d, times⟩ := by
  unfold headDistance at h
  split at h
  · rename_i times hi
    cases h
    exact ⟨times, hi⟩
  · cases h

theorem nextBranch_eq_some {marker following : Nat}
    (h : m.nextBranch marker = .ok (some following)) :
    ∃ d d' times times', m.program.insts[marker]? = some ⟨.branch d, times⟩ ∧
      following = marker + d ∧ m.program.insts[following]? = some ⟨.branch (d' + 1), times'⟩ := by
  obtain ⟨d, hd, h⟩ := exists_of_bind_eq_ok h
  obtain ⟨d', hd', h⟩ := exists_of_bind_eq_ok h
  obtain ⟨times, hi⟩ := headDistance_eq_ok hd
  obtain ⟨times', hi'⟩ := headDistance_eq_ok hd'
  cases d' with
  | zero => cases h
  | succ d' =>
    cases h
    exact ⟨d, d', times, times', hi, rfl, hi'⟩

theorem mem_of_later {s a b d marker : Nat} {marks : List Nat} {times : Repetition}
    (hchain : m.program.Chain s a marks b) (hpc : pc ∈ marks)
    (hi : m.program.insts[pc]? = some ⟨.branch (d + 1), times⟩)
    (h : ReflTransGen (fun a b => m.nextBranch a = .ok (some b)) pc marker) :
    marker ∈ marks ∧ ∃ d times, m.program.insts[marker]? = some ⟨.branch (d + 1), times⟩ := by
  induction h with
  | refl => exact ⟨hpc, d, times, hi⟩
  | tail _ hnext ih =>
    obtain ⟨hmem, d', times', hi'⟩ := ih
    obtain ⟨d₁, d₂, times₁, times₂, h₁, rfl, h₂⟩ := nextBranch_eq_some hnext
    obtain ⟨rfl, rfl⟩ : d₁ = d' + 1 ∧ times₁ = times' := by simpa [h₁] using hi'
    exact ⟨hchain.next_mem hmem h₁, d₂, times₂, h₂⟩

theorem Moves.size_eq (h : m.Moves t t') : t'.slots.size = t.slots.size := by
  cases h with
  | jump | assert | consume => rfl
  | enter | skip | close | finish | again => simp

theorem Moves.slot_eq (h : m.Moves t t')
    (henter : ∀ times, m.program.insts[t.pc]? ≠ some ⟨.enter g, times⟩)
    (hleave : ∀ times, m.program.insts[t.pc]? ≠ some ⟨.leave g, times⟩) :
    t'.slots[g]? = t.slots[g]? := by
  cases h with
  | jump | assert | consume => rfl
  | enter hi | skip hi _ _ =>
    exact Slots.getElem?_modify_of_ne (fun h => henter _ (h ▸ hi)) _
  | close hi | finish hi _ _ _ | again hi _ _ _ _ =>
    exact Slots.getElem?_modify_of_ne (fun h => hleave _ (h ▸ hi)) _

theorem Moves.slot_zero (hp : m.program.Structured) (h : m.Moves t t') :
    t'.slots[0]? = t.slots[0]? :=
  h.slot_eq (fun _ hi => absurd (hp.enter hi).1 (Nat.not_succ_le_zero 0))
    fun _ hi => absurd (hp.leave hi).1 (Nat.not_succ_le_zero 0)

theorem Moves.le (h : m.Moves t t') : t.pos ≤ t'.pos := by
  cases h with
  | consume _ hr => exact hr.bounds.1
  | jump | assert | enter | skip | close | finish | again => exact Nat.le_refl _

theorem Moves.isBoundary (h : m.Moves t t') (hpos : m.subject.isBoundary t.pos = true) :
    m.subject.isBoundary t'.pos = true := by
  cases h with
  | consume _ hr => exact hr.isBoundary hpos
  | jump | assert | enter | skip | close | finish | again => exact hpos

theorem ne_start_of_join {s : Nat} {scope : GroupSpan} {times : Repetition}
    (hp : m.program.Structured) (hscope : m.program.scope? s = some scope)
    (hi : m.program.insts[pc]? = some ⟨.join g, times⟩) : pc + 1 ≠ scope.start := by
  obtain ⟨span, hspan, rfl⟩ := Option.map_eq_some_iff.mp hscope
  by_cases hs : s = 0
  · subst hs
    obtain ⟨hframe, -, -⟩ := Program.defect?_eq_none_iff.mp hp.wellFormed.sound
    obtain ⟨stop, -, -, -, hwhole⟩ := Program.frameDefect?_eq_none_iff.mp hframe
    obtain rfl := Option.some.inj (hspan.symm.trans hwhole)
    exact Nat.succ_ne_zero pc
  · have hne := Program.ne_start_of_inst hp.wellFormed (by omega) hspan hi (by simp)
    simpa [hs] using hne

variable (hp : m.program.Structured) (hg : 1 ≤ g) (hspan : m.program.groups[g]? = some span)

include hp hg hspan

theorem Jumps.around_iff (h : m.Jumps pc pc') : span.Around pc ↔ span.Around pc' := by
  have hw := hp.wellFormed
  cases h with
  | mark hi =>
    have hstart := Program.ne_start_of_inst hw hg hspan hi (by simp)
    have hstop := Program.ne_stop_of_inst hw hg hspan hi (by simp)
    exact GroupSpan.around_iff_succ hstart hstop
  | @alternative d marker times hi hlater =>
    obtain ⟨s, ⟨scope, marks, -, hchain, hmem, hbelongs⟩, -⟩ := hw.chained hi rfl
    obtain ⟨hmarker, d', times', hi'⟩ := mem_of_later hchain hmem hi hlater
    have hstop := Program.ne_stop_of_inst hw hg hspan hi (by simp)
    have hstart' := Program.ne_start_of_inst hw hg hspan hi' (by simp)
    have hstop' := Program.ne_stop_of_inst hw hg hspan hi' (by simp)
    rw [← GroupSpan.around_iff_succ hstart' hstop']
    constructor
    · intro h
      obtain ⟨h₁, h₂⟩ := (hbelongs _ hmem).around (hbelongs _ hmarker) hg hspan hstop h
      exact ⟨h₁, Nat.le_of_lt h₂⟩
    · intro h
      obtain ⟨h₁, h₂⟩ := (hbelongs _ hmarker).around (hbelongs _ hmem) hg hspan hstop' h
      exact ⟨h₁, Nat.le_of_lt h₂⟩
  | @join g' times span' hi hspan' =>
    obtain ⟨d, hhead⟩ := hp.join hi
    obtain ⟨s, ⟨scope, marks, hscope, hchain, hmem, hbelongs⟩, -⟩ := hw.chained hhead rfl
    have hfirst := ne_start_of_join hp hscope hi
    obtain rfl := hchain.join_eq hmem hfirst hhead hi
    have hstart := Program.ne_start_of_inst hw hg hspan hi (by simp)
    have hstop := Program.ne_stop_of_inst hw hg hspan hi (by simp)
    have hstop' := Program.ne_stop_of_inst hw hg hspan hhead (by simp [Inst.ofAtom])
    rw [GroupSpan.around_iff_succ hstart hstop]
    exact (hbelongs _ hmem).around_iff_stop hw hspan' hg hspan hstop'

/-- Away from the markers of a group a path stays inside of it, or outside. -/
theorem Moves.around_iff (h : m.Moves t t') (hstart : t.pc ≠ span.start)
    (hstop : t.pc ≠ span.stop) : span.Around t.pc ↔ span.Around t'.pc := by
  have hw := hp.wellFormed
  have hlt := (Program.exists_markers hw hg hspan).1
  cases h with
  | jump h => exact h.around_iff hp hg hspan
  | assert | consume | enter | close | finish => exact GroupSpan.around_iff_succ hstart hstop
  | @skip g' times span' hi hspan' _ =>
    obtain ⟨hg', -⟩ := hp.enter hi
    have hpc := hp.enter_eq hi hspan'
    have hlt' := (Program.exists_markers hw hg' hspan').1
    have hne : g ≠ g' := fun h => hstart (by rw [hpc, Option.some.inj (hspan'.symm.trans (h ▸ hspan))])
    have hapart := Program.apart hw hg hspan hg' hspan' hne
    unfold GroupSpan.Around
    simp only
    omega
  | @again g' times slot span' hi _ hspan' _ _ =>
    obtain ⟨hg', -⟩ := hp.leave hi
    have hpc := hp.leave_eq hi hspan'
    have hlt' := (Program.exists_markers hw hg' hspan').1
    have hne : g ≠ g' := fun h => hstop (by rw [hpc, Option.some.inj (hspan'.symm.trans (h ▸ hspan))])
    have hapart := Program.apart hw hg hspan hg' hspan' hne
    unfold GroupSpan.Around
    simp only
    omega

omit hg

theorem Moves.slot_eq_of_between (h : m.Moves t t') (hstart : t.pc ≠ span.start)
    (hstop : t.pc ≠ span.stop) : t'.slots[g]? = t.slots[g]? :=
  h.slot_eq (fun _ hi => hstart (hp.enter_eq hi hspan)) fun _ hi => hstop (hp.leave_eq hi hspan)

/-- At the marker at its start a path comes into the group, or passes over it. -/
theorem Moves.of_start (h : m.Moves t t') {times : Repetition}
    (hi : m.program.insts[t.pc]? = some ⟨.enter g, times⟩) :
    t' = ⟨span.start + 1, t.pos, t.slots.enter g t.pos⟩ ∨
      times.min = 0 ∧ t' = ⟨span.stop + 1, t.pos, t.slots.skip g⟩ := by
  have hpc := hp.enter_eq hi hspan
  cases h with
  | enter hi' =>
    cases hi.symm.trans hi'
    exact .inl (by rw [hpc])
  | skip hi' hspan' hmin =>
    cases hi.symm.trans hi'
    cases hspan.symm.trans hspan'
    exact .inr ⟨hmin, rfl⟩
  | jump h => cases h with
    | mark hi' | alternative hi' _ | join hi' _ => cases hi.symm.trans hi'
  | assert hi' _ | consume hi' _ | close hi' | finish hi' _ _ _ | again hi' _ _ _ _ =>
    cases hi.symm.trans hi'

/-- At the marker at its end a path leaves the group for good, or goes through it once more. -/
theorem Moves.of_stop (h : m.Moves t t') {times : Repetition}
    (hi : m.program.insts[t.pc]? = some ⟨.leave g, times⟩) :
    times = .once ∧ t' = ⟨span.stop + 1, t.pos, t.slots.close g t.pos⟩ ∨
    ∃ slot, t.slots[g]? = some slot ∧
      ((slot.start = some t.pos ∧ slot.count < max times.min 1 ∨
          slot.start ≠ some t.pos ∧
            (times.min ≤ slot.count + 1 ∨ times.belowMax (slot.count + 1) = false)) ∧
          t' = ⟨span.stop + 1, t.pos, t.slots.finish g t.pos⟩ ∨
        slot.start ≠ some t.pos ∧ times.belowMax (slot.count + 1) = true ∧
          t' = ⟨span.start + 1, t.pos, t.slots.restart g t.pos⟩) := by
  have hpc := hp.leave_eq hi hspan
  cases h with
  | close hi' =>
    cases hi.symm.trans hi'
    exact .inl ⟨rfl, by rw [hpc]⟩
  | finish hi' _ hs hend =>
    cases hi.symm.trans hi'
    exact .inr ⟨_, hs, .inl ⟨hend, by rw [hpc]⟩⟩
  | again hi' hs hspan' hstart hmax =>
    cases hi.symm.trans hi'
    cases hspan.symm.trans hspan'
    exact .inr ⟨_, hs, .inr ⟨hstart, hmax, rfl⟩⟩
  | jump h => cases h with
    | mark hi' | alternative hi' _ | join hi' _ => cases hi.symm.trans hi'
  | assert hi' _ | consume hi' _ | enter hi' | skip hi' _ _ => cases hi.symm.trans hi'

end Matcher

end PosixRegex
