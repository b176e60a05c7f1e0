import PosixRegex.WeightSet

namespace PosixRegex

namespace RangeSet

variable {r r' : ClosedRange} {rs rs' : List ClosedRange} {n : Nat}

theorem separated_iff : Separated rs ↔
    (∀ r ∈ rs, r.lo ≤ r.hi) ∧ rs.Pairwise fun r s => r.hi + 1 < s.lo := by
  induction rs with
  | nil => simp [Separated]
  | cons r rs ih =>
    rw [Separated, ih, List.pairwise_cons, List.forall_mem_cons]
    constructor
    · rintro ⟨hle, hgap, hall, hpairs⟩
      exact ⟨⟨hle, hall⟩, hgap, hpairs⟩
    · rintro ⟨⟨hle, hall⟩, hgap, hpairs⟩
      exact ⟨hle, hgap, hall, hpairs⟩

theorem any_contains_iff :
    rs.any (·.contains n) = true ↔ ∃ r ∈ rs, r.lo ≤ n ∧ n ≤ r.hi := by
  simp only [List.any_eq_true, ClosedRange.contains_iff]

theorem lo_le_of_any_contains (h : Separated (r :: rs))
    (hn : (r :: rs).any (·.contains n) = true) : r.lo ≤ n := by
  obtain ⟨hle, hgap, -⟩ := h
  obtain ⟨s, hs, hlo, -⟩ := any_contains_iff.mp hn
  obtain rfl | hs := List.mem_cons.mp hs
  · exact hlo
  · have := hgap s hs
    omega

theorem any_contains_tail_iff (h : Separated (r :: rs)) :
    rs.any (·.contains n) = true ↔ (r :: rs).any (·.contains n) = true ∧ r.hi < n := by
  rw [any_contains_iff, any_contains_iff]
  constructor
  · rintro ⟨s, hs, hlo, hhi⟩
    have := h.2.1 s hs
    exact ⟨⟨s, List.mem_cons_of_mem r hs, hlo, hhi⟩, by omega⟩
  · rintro ⟨⟨s, hs, hlo, hhi⟩, hlt⟩
    obtain rfl | hs := List.mem_cons.mp hs
    · omega
    · exact ⟨s, hs, hlo, hhi⟩

theorem not_any_contains_succ_hi (h : Separated (r :: rs)) :
    ¬(r :: rs).any (·.contains (r.hi + 1)) = true := by
  intro hn
  obtain ⟨s, hs, hlo, -⟩ :=
    any_contains_iff.mp ((any_contains_tail_iff h).mpr ⟨hn, Nat.lt_succ_self _⟩)
  have := h.2.1 s hs
  omega

theorem any_contains_lo (h : Separated (r :: rs)) : (r :: rs).any (·.contains r.lo) = true :=
  any_contains_iff.mpr ⟨r, List.mem_cons_self, Nat.le_refl _, h.1⟩

theorem hi_le_of_any_contains (h : Separated (r :: rs)) (hlo : r.lo = r'.lo)
    (hsub : ∀ n, (r' :: rs').any (·.contains n) = true → (r :: rs).any (·.contains n) = true) :
    r'.hi ≤ r.hi := by
  refine Nat.le_of_not_lt fun hlt => not_any_contains_succ_hi h (hsub _ ?_)
  have := h.1
  exact any_contains_iff.mpr ⟨r', List.mem_cons_self, by omega, hlt⟩

theorem eq_of_any_contains (h : Separated rs) (h' : Separated rs')
    (heq : ∀ n, rs.any (·.contains n) = true ↔ rs'.any (·.contains n) = true) : rs = rs' := by
  induction rs generalizing rs' with
  | nil =>
    cases rs' with
    | nil => rfl
    | cons r' rs' => cases (heq r'.lo).mpr (any_contains_lo h')
  | cons r rs ih =>
    cases rs' with
    | nil => cases (heq r.lo).mp (any_contains_lo h)
    | cons r' rs' =>
      have hlo : r.lo = r'.lo := Nat.le_antisymm
        (lo_le_of_any_contains h ((heq _).mpr (any_contains_lo h')))
        (lo_le_of_any_contains h' ((heq _).mp (any_contains_lo h)))
      have hhi : r.hi = r'.hi := Nat.le_antisymm
        (hi_le_of_any_contains h' hlo.symm fun n => (heq n).mp)
        (hi_le_of_any_contains h hlo fun n => (heq n).mpr)
      obtain rfl : r = r' := by
        cases r
        cases r'
        simp_all
      have htail : rs = rs' := ih h.2.2 h'.2.2 fun n => by
        rw [any_contains_tail_iff h, any_contains_tail_iff h', heq n]
      rw [htail]

theorem eq_of_contains {s s' : RangeSet} (h : ∀ n, s.contains n = true ↔ s'.contains n = true) :
    s = s' := by
  have hranges := eq_of_any_contains s.separated s'.separated h
  cases s
  cases s'
  simpa using hranges

end RangeSet

end PosixRegex
