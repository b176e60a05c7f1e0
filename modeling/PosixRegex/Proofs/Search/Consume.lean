import PosixRegex.Proofs.Subject
import PosixRegex.Search.Matcher

namespace PosixRegex

namespace Subject

variable {s : Subject} {pos next : Nat}

theorem charAt?_end_le {c : Char} (h : s.charAt? pos = some c) : pos + c.utf8Size ≤ s.size := by
  obtain ⟨xs, ys, hcs, rfl⟩ := charAt?_eq_some_iff.mp h
  rw [size_eq, hcs, byteLength_append, byteLength]
  omega

theorem accept_bounds {p : Char → Bool} (h : s.accept p pos = some next) :
    pos < next ∧ next ≤ s.size := by
  obtain ⟨c, hc, -, rfl⟩ := accept_eq_some_iff.mp h
  have hw := c.utf8Size_pos
  have hend := charAt?_end_le hc
  omega

@[simp] theorem acceptAll_nil (s : Subject) (pos : Nat) : s.acceptAll [] pos = some pos := rfl

@[simp] theorem acceptAll_cons (s : Subject) (p : Char → Bool) (ps : List (Char → Bool))
    (pos : Nat) : s.acceptAll (p :: ps) pos = (s.accept p pos).bind (s.acceptAll ps) := rfl

@[simp] theorem acceptAll_singleton (s : Subject) (p : Char → Bool) (pos : Nat) :
    s.acceptAll [p] pos = s.accept p pos := by
  rw [acceptAll_cons]
  cases s.accept p pos <;> rfl

theorem acceptAll_append (s : Subject) (ps qs : List (Char → Bool)) (pos : Nat) :
    s.acceptAll (ps ++ qs) pos = (s.acceptAll ps pos).bind (s.acceptAll qs) := by
  induction ps generalizing pos with
  | nil => rfl
  | cons p ps ih =>
    rw [List.cons_append, acceptAll_cons, acceptAll_cons, Option.bind_assoc]
    exact Option.bind_congr fun mid _ => ih mid

theorem acceptAll_bounds {ps : List (Char → Bool)} (h : s.acceptAll ps pos = some next) :
    pos ≤ next ∧ next ≤ max pos s.size := by
  induction ps generalizing pos with
  | nil =>
    obtain rfl : pos = next := by simpa using h
    omega
  | cons p ps ih =>
    obtain ⟨mid, hm, ht⟩ := Option.bind_eq_some_iff.mp (acceptAll_cons s p ps pos ▸ h)
    have hp := accept_bounds hm
    have hq := ih ht
    omega

theorem isBoundary_of_accept {p : Char → Bool} (h : s.accept p pos = some next) :
    s.isBoundary next = true := by
  obtain ⟨c, hc, -⟩ := accept_iff.mp h
  exact hc.isBoundary_next

theorem isBoundary_of_acceptAll {ps : List (Char → Bool)} (hpos : s.isBoundary pos = true)
    (h : s.acceptAll ps pos = some next) : s.isBoundary next = true := by
  obtain ⟨cs, hcs, -⟩ := (acceptAll_iff hpos).mp h
  exact hcs.isBoundary_next

theorem accept_le {p : Char → Bool} {pos' : Nat} (h : s.accept p pos = some next)
    (hb : s.isBoundary pos' = true) (hlt : pos < pos') : next ≤ pos' := by
  obtain ⟨c, hc, -, rfl⟩ := accept_eq_some_iff.mp h
  exact add_utf8Size_le_of_isBoundary hc hb hlt

theorem accept_mono {p q : Char → Bool} {pos' next' : Nat} (h : s.accept p pos = some next)
    (h' : s.accept q pos' = some next') (hle : pos ≤ pos') : next ≤ next' := by
  obtain ⟨c, hc, -, rfl⟩ := accept_eq_some_iff.mp h
  obtain ⟨c', hc', -, rfl⟩ := accept_eq_some_iff.mp h'
  by_cases heq : pos = pos'
  · subst heq
    obtain rfl : c = c' := Option.some.inj (hc.symm.trans hc')
    exact Nat.le_refl _
  · have hend := add_utf8Size_le_of_isBoundary hc (isBoundary_of_charAt? hc') (by omega)
    omega

theorem acceptAll_mono {ps : List (Char → Bool)} {pos' next' : Nat}
    (h : s.acceptAll ps pos = some next) (h' : s.acceptAll ps pos' = some next')
    (hle : pos ≤ pos') : next ≤ next' := by
  induction ps generalizing pos pos' with
  | nil =>
    obtain rfl : pos = next := Option.some.inj h
    obtain rfl : pos' = next' := Option.some.inj h'
    exact hle
  | cons p ps ih =>
    obtain ⟨mid, hm, ht⟩ := Option.bind_eq_some_iff.mp (acceptAll_cons s p ps pos ▸ h)
    obtain ⟨mid', hm', ht'⟩ := Option.bind_eq_some_iff.mp (acceptAll_cons s p ps pos' ▸ h')
    exact ih ht ht' (accept_mono hm hm' hle)

def Spans (s : Subject) (k pos next : Nat) : Prop :=
  s.acceptAll (List.replicate k fun _ => true) pos = some next

theorem spans_zero : s.Spans 0 pos pos := rfl

theorem spans_of_accept {p : Char → Bool} (h : s.accept p pos = some next) :
    s.Spans 1 pos next := by
  obtain ⟨c, hc, -, hnext⟩ := accept_eq_some_iff.mp h
  exact (acceptAll_singleton _ _ _).trans (accept_eq_some_iff.mpr ⟨c, hc, rfl, hnext⟩)

theorem Spans.append {k k' mid : Nat} (h : s.Spans k pos mid) (h' : s.Spans k' mid next) :
    s.Spans (k + k') pos next := by
  rw [Spans, List.replicate_add, acceptAll_append]
  exact Option.bind_eq_some_iff.mpr ⟨mid, h, h'⟩

theorem Spans.mono {k pos' next' : Nat} (h : s.Spans k pos next) (h' : s.Spans k pos' next')
    (hle : pos ≤ pos') : next ≤ next' :=
  acceptAll_mono h h' hle

theorem Spans.eq_zero {k : Nat} (h : s.Spans k pos pos) : k = 0 := by
  cases k with
  | zero => rfl
  | succ k =>
    obtain ⟨mid, hmid, hrest⟩ := Option.bind_eq_some_iff.mp h
    have h₁ := accept_bounds hmid
    have h₂ := acceptAll_bounds hrest
    omega

end Subject

namespace Matcher

variable {m : Matcher} {what : Consumer} {pos next : Nat} {slots : Slots}

theorem consume_bounds (h : m.consume what pos slots = some next) :
    pos ≤ next ∧ next ≤ max pos m.subject.size := by
  cases what with
  | text | textFold => exact Subject.acceptAll_bounds h
  | backRef g | backRefFold g =>
    obtain ⟨cs, -, hcs⟩ := Option.bind_eq_some_iff.mp h
    exact Subject.acceptAll_bounds hcs
  | literal | literalFold | any | anyButNewline | narrow | weighted =>
    have hb := Subject.accept_bounds h
    omega

theorem isBoundary_of_consume (hpos : m.subject.isBoundary pos = true)
    (h : m.consume what pos slots = some next) : m.subject.isBoundary next = true := by
  cases what with
  | text | textFold => exact Subject.isBoundary_of_acceptAll hpos h
  | backRef g | backRefFold g =>
    obtain ⟨cs, -, hcs⟩ := Option.bind_eq_some_iff.mp h
    exact Subject.isBoundary_of_acceptAll hpos hcs
  | literal | literalFold | any | anyButNewline | narrow | weighted =>
    exact Subject.isBoundary_of_accept h

theorem consume_of_isSingle (m : Matcher) (h : what.isSingle = true) :
    ∃ p, ∀ pos slots, m.consume what pos slots = m.subject.accept p pos := by
  cases what with
  | text | textFold | backRef | backRefFold => cases h
  | literal | literalFold | any | anyButNewline | narrow | weighted => exact ⟨_, fun _ _ => rfl⟩

theorem consume_bounds_of_isSingle (hwhat : what.isSingle = true)
    (h : m.consume what pos slots = some next) : pos < next ∧ next ≤ m.subject.size := by
  obtain ⟨p, hp⟩ := consume_of_isSingle m hwhat
  rw [hp] at h
  exact Subject.accept_bounds h

end Matcher

end PosixRegex
