import PosixRegex.Subject
import Mathlib.Data.List.Forall2

namespace PosixRegex

theorem append_inj_of_byteLength_eq {xs xs' ys ys' : List Char} (h : xs ++ ys = xs' ++ ys')
    (hlen : byteLength xs = byteLength xs') : xs = xs' ∧ ys = ys' := by
  induction xs generalizing xs' with
  | nil =>
    cases xs' with
    | nil => exact ⟨rfl, h⟩
    | cons x' xs' =>
      have := x'.utf8Size_pos
      simp only [byteLength] at hlen
      omega
  | cons x xs ih =>
    cases xs' with
    | nil =>
      have := x.utf8Size_pos
      simp only [byteLength] at hlen
      omega
    | cons x' xs' =>
      obtain ⟨rfl, htail⟩ := List.cons.inj h
      simp only [byteLength, Nat.add_left_cancel_iff] at hlen
      obtain ⟨rfl, rfl⟩ := ih htail hlen
      exact ⟨rfl, rfl⟩

theorem layout_append (xs ys : List Char) : layout (xs ++ ys) = layout xs ++ layout ys :=
  List.flatMap_append

theorem reduceOption_layout (cs : List Char) : (layout cs).reduceOption = cs := by
  induction cs with
  | nil => rfl
  | cons c cs ih =>
    have hcut : layout (c :: cs) =
        (some c :: List.replicate (c.utf8Size - 1) none) ++ layout cs := by
      simp [layout]
    have hfirst : (some c :: List.replicate (c.utf8Size - 1) none).filterMap id = [c] := by
      simp
    change (layout (c :: cs)).filterMap id = c :: cs
    rw [hcut, List.filterMap_append, hfirst]
    exact congrArg (c :: ·) ih

namespace Subject

/-- The text from `pos` up to `next`. -/
def Spells (s : Subject) (pos next : Nat) (cs : List Char) : Prop :=
  ∃ xs ys, s.chars = xs ++ (cs ++ ys) ∧ byteLength xs = pos ∧ pos + byteLength cs = next

variable {s : Subject} {pos mid next : Nat} {c : Char} {cs ds : List Char}

theorem isBoundary_iff :
    s.isBoundary pos = true ↔ ∃ xs ys, s.chars = xs ++ ys ∧ byteLength xs = pos := by
  rw [isBoundary, Bool.or_eq_true, beq_iff_eq, Option.isSome_iff_exists]
  constructor
  · rintro (rfl | ⟨c, hc⟩)
    · exact ⟨s.chars, [], by simp, s.size_eq.symm⟩
    · obtain ⟨xs, ys, h, hpos⟩ := charAt?_eq_some_iff.mp hc
      exact ⟨xs, c :: ys, h, hpos⟩
  · rintro ⟨xs, ys, h, rfl⟩
    cases ys with
    | nil =>
      rw [List.append_nil] at h
      exact Or.inl (by rw [size_eq, h])
    | cons y ys => exact Or.inr ⟨y, charAt?_eq_some_iff.mpr ⟨xs, ys, h, rfl⟩⟩

theorem isBoundary_of_charAt? (h : s.charAt? pos = some c) : s.isBoundary pos = true := by
  simp [isBoundary, h]

theorem le_size_of_isBoundary (h : s.isBoundary pos = true) : pos ≤ s.size := by
  obtain ⟨xs, ys, hcs, rfl⟩ := isBoundary_iff.mp h
  rw [size_eq, hcs, byteLength_append]
  exact Nat.le_add_right _ _

theorem mem_of_charAt? (h : s.charAt? pos = some c) : c ∈ s.chars := by
  obtain ⟨xs, ys, hchars, -⟩ := charAt?_eq_some_iff.mp h
  rw [hchars]
  exact List.mem_append_right _ List.mem_cons_self

theorem mem_of_charBefore? (h : s.charBefore? pos = some c) : c ∈ s.chars := by
  induction pos with
  | zero => cases h
  | succ pos ih =>
    rcases Option.or_eq_some_iff.mp h with hat | ⟨-, hbefore⟩
    · exact mem_of_charAt? hat
    · exact ih hbefore

theorem isBoundary_add_of_charAt? (h : s.charAt? pos = some c) :
    s.isBoundary (pos + c.utf8Size) = true := by
  obtain ⟨xs, ys, hcs, rfl⟩ := charAt?_eq_some_iff.mp h
  exact isBoundary_iff.mpr ⟨xs ++ [c], ys, by simp [hcs], by simp [byteLength]⟩

theorem add_utf8Size_le_of_isBoundary (h : s.charAt? pos = some c)
    (hnext : s.isBoundary next = true) (hlt : pos < next) : pos + c.utf8Size ≤ next := by
  obtain ⟨xs, ys, hcs, rfl⟩ := charAt?_eq_some_iff.mp h
  obtain ⟨xs', ys', hcs', rfl⟩ := isBoundary_iff.mp hnext
  rw [hcs] at hcs'
  obtain ⟨as, rfl, has⟩ | ⟨bs, rfl, -⟩ := List.append_eq_append_iff.mp hcs'
  · cases as with
    | nil => simp at hlt
    | cons a as =>
      obtain ⟨rfl, -⟩ := List.cons.inj has
      simp only [byteLength_append, byteLength]
      omega
  · rw [byteLength_append] at hlt
    omega

section

variable {xs ys : List Char} (h : s.chars = xs ++ ys)

include h

theorem charAt?_byteLength : s.charAt? (byteLength xs) = ys.head? := by
  cases ys with
  | nil =>
    have hsize : s.size = byteLength xs := by rw [size_eq, h, List.append_nil]
    exact charAt?_eq_none_of_size_le s (Nat.le_of_eq hsize)
  | cons y ys => exact charAt?_eq_some_iff.mpr ⟨xs, ys, h, rfl⟩

theorem byteLength_eq_size_iff : byteLength xs = s.size ↔ ys = [] := by
  rw [size_eq, h, byteLength_append]
  cases ys with
  | nil => simp [byteLength]
  | cons y ys =>
    have := y.utf8Size_pos
    simp only [byteLength, reduceCtorEq, iff_false]
    omega

end

section

variable {xs ys : List Char} (h : s.chars = xs ++ c :: ys)

include h

theorem charAt?_inside {k : Nat} (hpos : 0 < k) (hk : k < c.utf8Size) :
    s.charAt? (byteLength xs + k) = none := by
  cases hd : s.charAt? (byteLength xs + k) with
  | none => rfl
  | some d =>
    have hc := charAt?_eq_some_iff.mpr ⟨xs, ys, h, rfl⟩
    have := add_utf8Size_le_of_isBoundary hc (isBoundary_of_charAt? hd) (by omega)
    omega

theorem charBefore?_inside {k : Nat} (hk : k < c.utf8Size) :
    s.charBefore? (byteLength xs + (k + 1)) = some c := by
  induction k with
  | zero => simp [charBefore?, charAt?_byteLength h]
  | succ k ih =>
    rw [← Nat.add_assoc, charBefore?, charAt?_inside h (Nat.succ_pos k) hk, Option.none_or]
    exact ih (by omega)

end

theorem charBefore?_byteLength {xs ys : List Char} (h : s.chars = xs ++ ys) :
    s.charBefore? (byteLength xs) = xs.getLast? := by
  rcases List.eq_nil_or_concat xs with rfl | ⟨xs, c, rfl⟩
  · rfl
  · have hc := c.utf8Size_pos
    rw [List.concat_eq_append] at h ⊢
    rw [List.append_assoc, List.singleton_append] at h
    have hbefore := charBefore?_inside h (Nat.sub_lt hc Nat.one_pos)
    rw [Nat.sub_add_cancel hc] at hbefore
    simpa [byteLength] using hbefore

theorem charAt?_pred_eq_newline_iff {xs ys : List Char} (h : s.chars = xs ++ ys) (hxs : xs ≠ []) :
    s.charAt? (byteLength xs - 1) = some '\n' ↔ xs.getLast? = some '\n' := by
  obtain ⟨xs, c, rfl⟩ := (List.eq_nil_or_concat xs).resolve_left hxs
  have hc := c.utf8Size_pos
  have hlen : byteLength (xs ++ [c]) - 1 = byteLength xs + (c.utf8Size - 1) := by
    simp only [byteLength_append, byteLength]
    omega
  rw [List.concat_eq_append] at h ⊢
  rw [List.append_assoc, List.singleton_append] at h
  rw [hlen, List.getLast?_concat]
  by_cases hone : c.utf8Size = 1
  · rw [hone, Nat.sub_self, Nat.add_zero, charAt?_byteLength h]
    rfl
  · rw [charAt?_inside h (by omega) (by omega)]
    apply iff_of_false
    · intro h
      cases h
    · intro h
      cases h
      exact hone (by decide)

theorem spells_nil : s.Spells pos next [] ↔ s.isBoundary pos = true ∧ pos = next := by
  rw [isBoundary_iff]
  constructor
  · rintro ⟨xs, ys, h, hpos, hnext⟩
    exact ⟨⟨xs, ys, h, hpos⟩, hnext⟩
  · rintro ⟨⟨xs, ys, h, hpos⟩, hnext⟩
    exact ⟨xs, ys, h, hpos, hnext⟩

theorem spells_cons :
    s.Spells pos next (c :: cs) ↔ s.charAt? pos = some c ∧ s.Spells (pos + c.utf8Size) next cs := by
  constructor
  · rintro ⟨xs, ys, h, rfl, rfl⟩
    refine ⟨charAt?_eq_some_iff.mpr ⟨xs, cs ++ ys, h, rfl⟩, xs ++ [c], ys, by simp [h], ?_, ?_⟩
    · simp [byteLength]
    · simp only [byteLength]
      omega
  · rintro ⟨hc, xs', ys', h', hpos, rfl⟩
    obtain ⟨xs, ys, h, rfl⟩ := charAt?_eq_some_iff.mp hc
    have happ : (xs ++ [c]) ++ ys = xs' ++ (cs ++ ys') := by
      rw [← h', h, List.append_assoc, List.singleton_append]
    obtain ⟨-, rfl⟩ := append_inj_of_byteLength_eq happ (by simp [byteLength, hpos])
    refine ⟨xs, ys', h, rfl, ?_⟩
    simp only [byteLength]
    omega

theorem spells_singleton :
    s.Spells pos next [c] ↔ s.charAt? pos = some c ∧ pos + c.utf8Size = next := by
  rw [spells_cons, spells_nil]
  constructor
  · rintro ⟨hc, -, hnext⟩
    exact ⟨hc, hnext⟩
  · rintro ⟨hc, hnext⟩
    exact ⟨hc, isBoundary_add_of_charAt? hc, hnext⟩

theorem spells_append :
    s.Spells pos next (cs ++ ds) ↔ ∃ mid, s.Spells pos mid cs ∧ s.Spells mid next ds := by
  induction cs generalizing pos with
  | nil =>
    simp only [List.nil_append, spells_nil]
    constructor
    · intro h
      obtain ⟨xs, ys, hcs, hpos, -⟩ := id h
      exact ⟨pos, ⟨isBoundary_iff.mpr ⟨xs, ds ++ ys, hcs, hpos⟩, rfl⟩, h⟩
    · rintro ⟨mid, ⟨-, rfl⟩, h⟩
      exact h
  | cons c cs ih =>
    simp only [List.cons_append, spells_cons, ih]
    constructor
    · rintro ⟨hc, mid, h₁, h₂⟩
      exact ⟨mid, ⟨hc, h₁⟩, h₂⟩
    · rintro ⟨mid, ⟨hc, h₁⟩, h₂⟩
      exact ⟨hc, mid, h₁, h₂⟩

namespace Spells

theorem isBoundary (h : s.Spells pos next cs) : s.isBoundary pos = true := by
  obtain ⟨xs, ys, hcs, hpos, -⟩ := h
  exact isBoundary_iff.mpr ⟨xs, cs ++ ys, hcs, hpos⟩

theorem isBoundary_next (h : s.Spells pos next cs) : s.isBoundary next = true := by
  obtain ⟨xs, ys, hcs, rfl, rfl⟩ := h
  exact isBoundary_iff.mpr ⟨xs ++ cs, ys, by simp [hcs], by simp⟩

theorem le (h : s.Spells pos next cs) : pos ≤ next := by
  obtain ⟨-, -, -, -, rfl⟩ := h
  exact Nat.le_add_right _ _

theorem slice_eq (h : s.Spells pos next cs) : s.slice pos next = cs := by
  obtain ⟨xs, ys, hcs, rfl, rfl⟩ := h
  have hcells : (s.cells.extract (byteLength xs) (byteLength xs + byteLength cs)).toList =
      layout cs := by
    rw [s.cells_eq, hcs, Array.toList_extract, layout_append, layout_append,
      List.extract_eq_take_drop, ← length_layout xs, List.drop_left, Nat.add_sub_cancel_left,
      ← length_layout cs, List.take_left]
  rw [slice, hcells, reduceOption_layout]

end Spells

theorem spells_slice (hpos : s.isBoundary pos = true) (hnext : s.isBoundary next = true)
    (hle : pos ≤ next) : s.Spells pos next (s.slice pos next) := by
  obtain ⟨xs, ys, hcs, rfl⟩ := isBoundary_iff.mp hpos
  obtain ⟨xs', ys', hcs', rfl⟩ := isBoundary_iff.mp hnext
  have happ : xs ++ ys = xs' ++ ys' := hcs.symm.trans hcs'
  have hspells : ∃ cs, s.Spells (byteLength xs) (byteLength xs') cs := by
    obtain ⟨as, rfl, has⟩ | ⟨bs, rfl, hbs⟩ := List.append_eq_append_iff.mp happ
    · exact ⟨as, xs, ys', by rw [hcs, has], rfl, by simp⟩
    · rw [byteLength_append] at hle
      exact ⟨[], xs' ++ bs, ys, by simp [hcs], rfl, by
        rw [byteLength_append]
        simp only [byteLength]
        omega⟩
  obtain ⟨cs, h⟩ := hspells
  exact h.slice_eq ▸ h

theorem accept_iff {p : Char → Bool} :
    s.accept p pos = some next ↔ ∃ c, s.Spells pos next [c] ∧ p c = true := by
  rw [accept_eq_some_iff]
  constructor
  · rintro ⟨c, hc, hp, hnext⟩
    exact ⟨c, spells_singleton.mpr ⟨hc, hnext⟩, hp⟩
  · rintro ⟨c, h, hp⟩
    obtain ⟨hc, hnext⟩ := spells_singleton.mp h
    exact ⟨c, hc, hp, hnext⟩

theorem acceptAll_iff {ps : List (Char → Bool)} (hpos : s.isBoundary pos = true) :
    s.acceptAll ps pos = some next ↔
      ∃ cs, s.Spells pos next cs ∧ List.Forall₂ (fun p c => p c = true) ps cs := by
  induction ps generalizing pos with
  | nil =>
    simp only [List.forall₂_nil_left_iff]
    constructor
    · intro h
      exact ⟨[], spells_nil.mpr ⟨hpos, Option.some.inj h⟩, rfl⟩
    · rintro ⟨cs, h, rfl⟩
      exact congrArg some (spells_nil.mp h).2
  | cons p ps ih =>
    change (s.accept p pos).bind (s.acceptAll ps) = some next ↔ _
    constructor
    · intro h
      obtain ⟨mid, hm, ht⟩ := Option.bind_eq_some_iff.mp h
      obtain ⟨c, hc, hp⟩ := accept_iff.mp hm
      obtain ⟨cs, hcs, hps⟩ := (ih hc.isBoundary_next).mp ht
      exact ⟨c :: cs, spells_append.mpr ⟨mid, hc, hcs⟩, .cons hp hps⟩
    · rintro ⟨cs, hcs, hps⟩
      cases hps with
      | @cons _ c _ cs hp hps =>
        obtain ⟨mid, hc, hcs⟩ := spells_append.mp (List.singleton_append ▸ hcs)
        refine Option.bind_eq_some_iff.mpr ⟨mid, accept_iff.mpr ⟨c, hc, hp⟩, ?_⟩
        exact (ih hc.isBoundary_next).mpr ⟨cs, hcs, hps⟩

end Subject

end PosixRegex
