import PosixRegex.Proofs.Pattern.Derivation

namespace PosixRegex

namespace Leaf

def isBackRef : Leaf → Bool
  | backRef _ => true
  | _ => false

def refs : Leaf → List Nat
  | backRef g => [g]
  | _ => []

end Leaf

namespace Pattern

variable {p q : Pattern} {n n' : Nat} {lax ok : Bool}

/-- Whether a pattern matches the empty text. Where `lax` is set this may depend on the place, so
that assertions and references count as empty. `ok` tells whether the items so far are empty. -/
def isNullable (lax : Bool) : (ok : Bool) → Pattern → Bool
  | ok, done => ok
  | ok, leaf what times rest =>
    isNullable lax (ok && (times.min == 0 || (lax && what.isBackRef))) rest
  | ok, assert _ rest => isNullable lax (ok && lax) rest
  | ok, group body times rest =>
    isNullable lax (ok && (times.min == 0 || isNullable lax true body)) rest
  | ok, bar rest => ok || isNullable lax true rest

def refs : Pattern → List Nat
  | done => []
  | leaf what _ rest => what.refs ++ rest.refs
  | assert _ rest | bar rest => rest.refs
  | group body _ rest => body.refs ++ rest.refs

/-- Whether no loop may have to leave out an iteration that matters, where `refs` are the groups
that are referred to. An iteration is left out if it is empty and another one follows. That does
not show if the loop holds none of these groups and needs no second iteration, or can have an empty
one anywhere. -/
def isOrderly (refs : List Nat) (n : Nat) : Pattern → Bool
  | done => true
  | leaf _ _ rest | assert _ rest | bar rest => rest.isOrderly refs n
  | group body times rest =>
    (!times.belowMax 1 || !body.isNullable true true ||
      ((List.range' n (body.groupCount + 1)).all (!refs.contains ·) &&
        (times.min ≤ 1 || body.isNullable false true))) &&
      body.isOrderly refs (n + 1) && rest.isOrderly refs (n + 1 + body.groupCount)

theorem isNullable_of_afterBar (h : p.afterBar n = some (n', q))
    (hq : q.isNullable lax true = true) : p.isNullable lax ok = true := by
  induction p generalizing n ok with
  | done => cases h
  | leaf what times rest ih | assert what rest ih | group body times rest _ ih => exact ih h
  | bar rest _ =>
    obtain ⟨rfl, rfl⟩ : n = n' ∧ rest = q := by simpa [afterBar] using h
    simp [isNullable, hq]

theorem isOrderly_of_afterBar {refs : List Nat} (h : p.afterBar n = some (n', q))
    (hp : p.isOrderly refs n = true) : q.isOrderly refs n' = true := by
  induction p generalizing n with
  | done => cases h
  | leaf what times rest ih | assert what rest ih => exact ih h hp
  | group body times rest _ ih =>
    rw [isOrderly, Bool.and_eq_true] at hp
    exact ih h hp.2
  | bar rest _ =>
    obtain ⟨rfl, rfl⟩ : n = n' ∧ rest = q := by simpa [afterBar] using h
    exact hp

theorem refs_subset_of_afterBar (h : p.afterBar n = some (n', q)) : q.refs ⊆ p.refs := by
  induction p generalizing n with
  | done => cases h
  | leaf what times rest ih => exact fun g hg => List.mem_append_right _ (ih h hg)
  | assert what rest ih => exact ih h
  | group body times rest _ ih => exact fun g hg => List.mem_append_right _ (ih h hg)
  | bar rest _ =>
    obtain ⟨rfl, rfl⟩ : n = n' ∧ rest = q := by simpa [afterBar] using h
    exact List.Subset.refl _

end Pattern

/-- Whether a part may match the empty text somewhere. -/
def Part.mayBeEmpty : Part → Bool
  | seq p _ | alts p _ | chain p _ | rounds p _ _ _ => p.isNullable true true

variable {r : Reading} {part : Part} {s s' : Stage}

theorem Reading.Takes.le {held : Nat → Option Span} {pos next : Nat} {what : Leaf}
    (h : r.Takes held pos next what) : pos ≤ next := by
  cases what with
  | char | any | bracket =>
    obtain ⟨x, hx, -⟩ := h
    exact hx.le
  | backRef g =>
    obtain ⟨span, cs, ds, -, -, hds, -⟩ := h
    exact hds.le

theorem Reading.Takes.isBackRef {held : Nat → Option Span} {pos : Nat} {what : Leaf}
    (h : r.Takes held pos pos what) : what.isBackRef = true := by
  cases what with
  | char | any | bracket =>
    obtain ⟨x, hx, -⟩ := h
    obtain ⟨-, hnext⟩ := Subject.spells_singleton.mp hx
    have := x.utf8Size_pos
    omega
  | backRef g => rfl

theorem Reading.Copies.le {held : Nat → Option Span} {pos next k : Nat} {what : Leaf}
    (h : r.Copies held what k pos next) : pos ≤ next := by
  induction h with
  | zero => exact Nat.le_refl _
  | succ htakes _ ih => exact Nat.le_trans htakes.le ih

theorem Stage.held_closing_of_ne {i g start : Nat} (h : i ≠ g) :
    (s.closing g start).held i = s.held i :=
  Function.update_of_ne h _ _

namespace Derives

theorem le (h : Derives r part s s') : s.pos ≤ s'.pos := by
  induction h with
  | done | bar => exact Nat.le_refl _
  | leaf _ hcopies _ ih => exact Nat.le_trans hcopies.le ih
  | assert _ _ ih | skip _ _ ih | last _ _ _ ih | here _ ih | later _ _ ih => exact ih
  | group _ _ ih₁ ih₂ | again _ _ _ ih₁ ih₂ => exact Nat.le_trans ih₁ ih₂

theorem held_eq (h : Derives r part s s') {i : Nat} (hi : i < part.first ∨ part.bound ≤ i) :
    s'.held i = s.held i := by
  induction h with
  | done | bar => rfl
  | leaf _ _ _ ih | assert _ _ ih | here _ ih => exact ih hi
  | later hp _ ih =>
    have := Pattern.le_of_afterBar hp
    simp only [Part.first, Part.bound] at hi ih
    exact ih (by omega)
  | skip _ _ ih =>
    simp only [Part.first, Part.bound, Pattern.groupCount] at hi ih
    rw [ih (by omega), Function.update_of_ne (by omega)]
  | group _ _ ih₁ ih₂ =>
    simp only [Part.first, Part.bound, Pattern.groupCount] at hi ih₁ ih₂
    rw [ih₂ (by omega), ih₁ (by omega)]
  | last _ _ _ ih =>
    simp only [Part.first, Part.bound] at hi ih
    rw [Stage.held_closing_of_ne (by omega), ih (by omega)]
  | again _ _ _ ih₁ ih₂ =>
    simp only [Part.first, Part.bound] at hi ih₁ ih₂
    rw [ih₂ hi, Stage.held_closing_of_ne (by omega), ih₁ (by omega)]

theorem mayBeEmpty (h : Derives r part s s') (hpos : s'.pos = s.pos) :
    part.mayBeEmpty = true := by
  induction h with
  | done => rfl
  | bar => rfl
  | @leaf what times rest n k next s s' hk hcopies hrest ih =>
    have h₁ := hcopies.le
    have h₂ := hrest.le
    simp only at h₂
    obtain rfl : next = s.pos := by omega
    have hempty : (times.min == 0 || (true && what.isBackRef)) = true := by
      cases hcopies with
      | zero => simp [Nat.le_zero.mp hk.1]
      | @succ k _ mid _ htakes hrest =>
        have h₃ := htakes.le
        have h₄ := hrest.le
        obtain rfl : mid = s.pos := by omega
        simp [htakes.isBackRef]
    simp only [Part.mayBeEmpty, Pattern.isNullable, Bool.true_and] at ih hempty ⊢
    rw [hempty]
    exact ih hpos
  | assert _ _ ih => exact ih hpos
  | skip hmin _ ih =>
    simp only [Part.mayBeEmpty, Pattern.isNullable, hmin] at ih ⊢
    exact ih hpos
  | group hrounds hrest ih₁ ih₂ =>
    have h₁ := hrounds.le
    have h₂ := hrest.le
    simp only [Part.mayBeEmpty, Pattern.isNullable] at ih₁ ih₂ ⊢
    rw [ih₁ (by omega), Bool.or_true]
    exact ih₂ (by omega)
  | last _ _ _ ih => exact ih hpos
  | again hbody _ hrest ih₁ _ =>
    have h₁ := hbody.le
    have h₂ := hrest.le
    simp only [Stage.closing] at h₂
    exact ih₁ (by omega)
  | here _ ih => exact ih hpos
  | later hp _ ih => exact Pattern.isNullable_of_afterBar hp (ih hpos)

end Derives

end PosixRegex
