import PosixRegex.Proofs.Program.Placement
import PosixRegex.Proofs.Search.Mirror

namespace PosixRegex

/-- Whether a newline is a literal character or is listed between brackets. -/
def Consumer.listsNewline (l : Locale) : Consumer → Bool
  | literal c => '\n' == c
  | literalFold c other => '\n' == c || '\n' == other
  | text cs => cs.any ('\n' == ·)
  | textFold pairs => pairs.any fun (c, other) => '\n' == c || '\n' == other
  | narrow s => !s.negated && s.contains '\n'
  | weighted s => !s.negated && s.contains l '\n'
  | any | anyButNewline | backRef _ | backRefFold _ => false

def Inst.listsNewline (l : Locale) (i : Inst) : Bool :=
  match i.atom with
  | .consume what => what.listsNewline l
  | _ => false

variable {t : Target} {l : Locale}

theorem Target.listsNewline_literal (t : Target) (l : Locale) (cs : List Char) :
    (t.literal cs).listsNewline l = cs.any fun c => t.spells c '\n' := by
  unfold Target.literal Target.spells
  split
  · split
    · simp [Consumer.listsNewline, Target.pair]
    · exact List.any_map
  · split
    · simp [Consumer.listsNewline]
    · rfl

theorem Target.listsNewline_char (t : Target) (l : Locale) (c : Char) :
    (t.consumer (.char c)).listsNewline l = t.spells c '\n' := by
  rw [Target.consumer, listsNewline_literal, List.any_cons, List.any_nil, Bool.or_false]

namespace Pattern

theorem mem_chain {i : Inst} {g : Nat} {bs : List (List Inst)} (h : i ∈ bs.flatten) :
    i ∈ chain g bs := by
  fun_induction chain g bs with
  | case1 => exact h
  | case2 last =>
    simp only [List.flatten_singleton] at h
    simp [h]
  | case3 first others _ ih =>
    rw [List.flatten_cons, List.mem_append] at h
    rcases h with h | h
    · simp [h]
    · simp [ih h]

theorem mem_link {i : Inst} {g : Nat} {bs : List (List Inst)} (h : i ∈ bs.flatten) :
    i ∈ link g bs := by
  unfold link
  split
  · simpa using h
  · exact mem_chain h

theorem char_of_flush {pending : List Char}
    (h : ∀ i ∈ t.flush pending, i.listsNewline l = false) :
    ∀ c ∈ pending, t.spells c '\n' = false := by
  intro c hc
  have hne : pending.isEmpty = false := by
    cases pending with
    | nil => cases hc
    | cons => rfl
  have hi : (t.literal pending.reverse).listsNewline l = false := by
    apply h (.ofAtom (.consume (t.literal pending.reverse)))
    simp [Target.flush, hne]
  rw [Target.listsNewline_literal, List.any_eq_false] at hi
  simpa using hi c (List.mem_reverse.mpr hc)

theorem leaf_of_branches {p : Pattern} {n : Nat} {pending : List Char}
    (h : ∀ i ∈ (p.branches t n pending).flatten, i.listsNewline l = false) :
    (∀ c ∈ pending, t.spells c '\n' = false) ∧
      ∀ what ∈ p.leaves, (t.consumer what).listsNewline l = false := by
  fun_induction Pattern.branches t n pending p with
  | case1 next pending =>
    rw [List.flatten_singleton] at h
    refine ⟨char_of_flush h, ?_⟩
    rintro what ⟨⟩
  | case2 next pending c rest _ ih =>
    obtain ⟨hpending, hrest⟩ := ih h
    obtain ⟨hc, hpending⟩ := List.forall_mem_cons.mp hpending
    exact ⟨hpending, List.forall_mem_cons.mpr ⟨(t.listsNewline_char l c).trans hc, hrest⟩⟩
  | case3 next pending c rest _ ih =>
    rw [flatten_prepend, List.forall_mem_append] at h
    obtain ⟨hc, hrest⟩ := ih h.2
    refine ⟨char_of_flush h.1, List.forall_mem_cons.mpr ⟨?_, hrest⟩⟩
    exact (t.listsNewline_char l c).trans (hc c List.mem_cons_self)
  | case4 next pending what times rest _ ih =>
    rw [flatten_prepend, List.forall_mem_append, List.forall_mem_append] at h
    obtain ⟨⟨hflush, hwhat⟩, hrest⟩ := h
    exact ⟨char_of_flush hflush,
      List.forall_mem_cons.mpr ⟨hwhat _ List.mem_cons_self, (ih hrest).2⟩⟩
  | case5 next pending what rest ih =>
    rw [flatten_prepend, List.forall_mem_append, List.forall_mem_append] at h
    exact ⟨char_of_flush h.1.1, (ih h.2).2⟩
  | case6 next pending body times rest inner ihbody ihrest =>
    rw [flatten_prepend, List.forall_mem_append, List.forall_mem_append, List.forall_mem_append] at h
    obtain ⟨⟨⟨hflush, hinner⟩, -⟩, hrest⟩ := h
    have hbody := ihbody fun i hi => hinner i (List.mem_cons_of_mem _ (mem_link hi))
    exact ⟨char_of_flush hflush, List.forall_mem_append.mpr ⟨hbody.2, (ihrest hrest).2⟩⟩
  | case7 next pending rest ih =>
    rw [List.flatten_cons, List.forall_mem_append] at h
    exact ⟨char_of_flush h.1, (ih h.2).2⟩

theorem leaf_of_insts {p : Pattern}
    (h : ∀ i ∈ (Program.ofPattern t p).insts, i.listsNewline l = false) :
    ∀ what ∈ p.leaves, (t.consumer what).listsNewline l = false := by
  have hbranches : ∀ i ∈ (p.branches t 1 []).flatten, i.listsNewline l = false := by
    intro i hi
    apply h
    have hcode : i ∈ p.code t := List.mem_append_left _ (mem_link hi)
    simpa [Program.ofPattern] using hcode
  exact (leaf_of_branches hbranches).2

end Pattern

namespace Bracket

variable {b : Bracket} {o : Options} {l' : Locale}

theorem contains_newline_narrowSet (ho : o.newlineSensitive = true)
    (h : (Consumer.narrow (b.narrowSet o l')).listsNewline l = false) :
    (b.narrowSet o l').contains '\n' = false := by
  cases hb : b.negated with
  | false =>
    have hnegated : (b.narrowSet o l').negated = false := by
      simp [narrowSet, hb]
    simpa [Consumer.listsNewline, hnegated] using h
  | true =>
    simp [narrowSet, hb, ho, NarrowSet.contains]

theorem contains_newline_weightSet (ho : o.newlineSensitive = true)
    (h : (Consumer.weighted (b.weightSet o l')).listsNewline l = false) :
    (b.weightSet o l').contains l '\n' = false := by
  cases hb : b.negated with
  | false =>
    have hset : b.weightSet o l' = b.listed o l' := by
      simp [weightSet, listed, hb]
    have hnegated : (b.weightSet o l').negated = false := hset ▸ negated_listed b o l'
    simpa [Consumer.listsNewline, hnegated] using h
  | true =>
    simp [weightSet, hb, ho, WeightSet.contains, WeightSet.negate]

theorem admits_newline (ho : o.newlineSensitive = true)
    (h : (b.consumer o l').listsNewline l = false) : (b.consumer o l').admits l '\n' = false := by
  unfold consumer at h ⊢
  by_cases hbytes : (l'.isByteIndexed && fitsBytes (b.weights o l')) = true
  · rw [if_pos hbytes] at h ⊢
    exact contains_newline_narrowSet ho h
  · rw [if_neg hbytes] at h ⊢
    exact contains_newline_weightSet ho h

end Bracket

end PosixRegex
