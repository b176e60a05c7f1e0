namespace PosixRegex

/-- The numbers from `lo` to `hi`, both included. -/
structure ClosedRange where
  lo : Nat
  hi : Nat
  deriving DecidableEq, Repr

namespace ClosedRange

def contains (r : ClosedRange) (n : Nat) : Bool := r.lo ≤ n && n ≤ r.hi

theorem contains_iff {r : ClosedRange} {n : Nat} : r.contains n = true ↔ r.lo ≤ n ∧ n ≤ r.hi := by
  simp [contains]

def group : List Nat → List ClosedRange
  | [] => []
  | n :: ns =>
    match group ns with
    | [] => [⟨n, n⟩]
    | r :: rs => if n + 1 = r.lo then ⟨n, r.hi⟩ :: rs else ⟨n, n⟩ :: r :: rs

end ClosedRange

namespace RangeSet

/-- No range is empty, and at least one number lies between two neighbours. -/
def Separated : List ClosedRange → Prop
  | [] => True
  | r :: rs => r.lo ≤ r.hi ∧ (∀ s ∈ rs, r.hi + 1 < s.lo) ∧ Separated rs

def insertInto (lo hi : Nat) : List ClosedRange → List ClosedRange
  | [] => [⟨lo, hi⟩]
  | r :: rs =>
    if hi + 1 < r.lo then ⟨lo, hi⟩ :: r :: rs
    else if r.hi + 1 < lo then r :: insertInto lo hi rs
    else insertInto (min lo r.lo) (max hi r.hi) rs

theorem lt_lo_insertInto {m lo hi : Nat} {rs : List ClosedRange} (hm : m < lo)
    (h : ∀ s ∈ rs, m < s.lo) : ∀ s ∈ insertInto lo hi rs, m < s.lo := by
  induction rs generalizing lo hi with
  | nil => simpa [insertInto] using hm
  | cons r rs ih =>
    have hr : m < r.lo := h r (by simp)
    have hrs : ∀ s ∈ rs, m < s.lo := fun s hs => h s (by simp [hs])
    simp only [insertInto]
    split
    · simpa using ⟨hm, hr, hrs⟩
    · split
      · simpa using ⟨hr, ih hm hrs⟩
      · exact ih (by omega) hrs

theorem separated_insertInto {lo hi : Nat} {rs : List ClosedRange} (hle : lo ≤ hi)
    (h : Separated rs) : Separated (insertInto lo hi rs) := by
  induction rs generalizing lo hi with
  | nil => simpa [insertInto, Separated] using hle
  | cons r rs ih =>
    obtain ⟨hr, hgap, hrs⟩ := h
    simp only [insertInto]
    split
    · rename_i hlt
      refine ⟨hle, ?_, hr, hgap, hrs⟩
      intro s hs
      rcases List.mem_cons.mp hs with rfl | hs
      · exact hlt
      · have := hgap s hs
        show hi + 1 < s.lo
        omega
    · split
      · rename_i hlt
        exact ⟨hr, lt_lo_insertInto hlt hgap, ih hle hrs⟩
      · exact ih (by omega) hrs

theorem any_contains_insertInto {lo hi n : Nat} {rs : List ClosedRange} (hle : lo ≤ hi)
    (h : Separated rs) :
    (insertInto lo hi rs).any (·.contains n) = true ↔
      (lo ≤ n ∧ n ≤ hi) ∨ rs.any (·.contains n) = true := by
  induction rs generalizing lo hi with
  | nil => simp [insertInto, ClosedRange.contains_iff]
  | cons r rs ih =>
    obtain ⟨hr, -, hrs⟩ := h
    simp only [insertInto]
    split
    · rw [List.any_cons, Bool.or_eq_true, ClosedRange.contains_iff]
    · split
      · rw [List.any_cons, Bool.or_eq_true, ih hle hrs, List.any_cons, Bool.or_eq_true]
        exact or_left_comm
      · rw [ih (by omega) hrs, List.any_cons, Bool.or_eq_true, ← or_assoc,
          ClosedRange.contains_iff]
        apply or_congr_left
        omega

end RangeSet

structure RangeSet where
  ranges : List ClosedRange
  separated : RangeSet.Separated ranges
  deriving DecidableEq

namespace RangeSet

def empty : RangeSet := ⟨[], trivial⟩

def insertRange (s : RangeSet) (lo hi : Nat) : RangeSet :=
  if h : lo ≤ hi then ⟨insertInto lo hi s.ranges, separated_insertInto h s.separated⟩ else s

def contains (s : RangeSet) (n : Nat) : Bool := s.ranges.any (·.contains n)

@[simp] theorem contains_empty (n : Nat) : empty.contains n = false := rfl

theorem contains_insertRange {s : RangeSet} {lo hi n : Nat} :
    (s.insertRange lo hi).contains n = true ↔ (lo ≤ n ∧ n ≤ hi) ∨ s.contains n = true := by
  unfold contains insertRange
  split
  · rename_i hle
    exact any_contains_insertInto hle s.separated
  · rename_i hlt
    constructor
    · exact Or.inr
    · rintro (⟨h₁, h₂⟩ | h)
      · omega
      · exact h

end RangeSet

end PosixRegex
