import PosixRegex.Proofs.Pattern.Membership

namespace PosixRegex

def Leaf.Proper (around : List Nat) : Leaf → Prop
  | bracket b => b.Ascending
  | backRef g => g ∉ around
  | _ => True

theorem Leaf.Proper.not_mem {what : Leaf} {around : List Nat} (h : what.Proper around) (g : Nat)
    (hg : what = .backRef g) : g ∉ around := by
  subst hg
  exact h

namespace Pattern

/-- A pattern in order, inside of the groups in `around`. Its own groups are numbered from `n`
on. -/
def Proper (around : List Nat) (n : Nat) : Pattern → Prop
  | done => True
  | leaf what times rest => what.Proper around ∧ times.Ordered ∧ rest.Proper around n
  | assert _ rest | bar rest => rest.Proper around n
  | group body times rest => body.Proper (n :: around) (n + 1) ∧ times.Ordered ∧
      rest.Proper around (n + 1 + body.groupCount)

theorem proper_of_chars {cs : List Char} {rest : Pattern} {around : List Nat} {n : Nat}
    (h : (chars cs rest).Proper around n) : rest.Proper around n := by
  induction cs with
  | nil => exact h
  | cons c cs ih => exact ih h.2.2

theorem proper_of_afterBar {p q : Pattern} {n n' : Nat} {around : List Nat}
    (h : p.afterBar n = some (n', q)) (hp : p.Proper around n) : q.Proper around n' := by
  induction p generalizing n with
  | done => cases h
  | leaf what times rest ih => exact ih h hp.2.2
  | assert what rest ih => exact ih h hp
  | group body times rest _ ih => exact ih h hp.2.2
  | bar rest _ =>
    obtain ⟨rfl, rfl⟩ : n = n' ∧ rest = q := by simpa [afterBar] using h
    exact hp

/-- Whether every group may be entered, as its number of iterations is not bounded by zero. -/
def entersGroups : Pattern → Bool
  | done => true
  | leaf _ _ rest | assert _ rest | bar rest => rest.entersGroups
  | group body times rest => times.belowMax 0 && body.entersGroups && rest.entersGroups

theorem entersGroups_of_afterBar {p q : Pattern} {n n' : Nat}
    (h : p.afterBar n = some (n', q)) (hp : p.entersGroups = true) : q.entersGroups = true := by
  induction p generalizing n with
  | done => cases h
  | leaf what times rest ih | assert what rest ih => exact ih h hp
  | group body times rest _ ih =>
    rw [entersGroups, Bool.and_eq_true] at hp
    exact ih h hp.2
  | bar rest _ =>
    obtain ⟨rfl, rfl⟩ : n = n' ∧ rest = q := by simpa [afterBar] using h
    exact hp

end Pattern

end PosixRegex
