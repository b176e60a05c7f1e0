import PosixRegex.Pattern

namespace PosixRegex

namespace Pattern

/-- What follows the first bar, with the number of its first group, where the groups of the
pattern are numbered from `next` on. -/
def afterBar (next : Nat) : Pattern → Option (Nat × Pattern)
  | done => none
  | leaf _ _ rest | assert _ rest => afterBar next rest
  | group body _ rest => afterBar (next + 1 + body.groupCount) rest
  | bar rest => some (next, rest)

def chars (cs : List Char) (rest : Pattern) : Pattern :=
  cs.foldr (fun c rest => leaf (.char c) .once rest) rest

theorem chars_append (cs ds : List Char) (rest : Pattern) :
    chars (cs ++ ds) rest = chars cs (chars ds rest) :=
  List.foldr_append

theorem groupCount_chars (cs : List Char) (rest : Pattern) :
    (chars cs rest).groupCount = rest.groupCount := by
  induction cs with
  | nil => rfl
  | cons c cs ih => exact ih

theorem sizeOf_afterBar_lt {p q : Pattern} {n n' : Nat} (h : p.afterBar n = some (n', q)) :
    sizeOf q < sizeOf p := by
  induction p generalizing n with
  | done => cases h
  | leaf what times rest ih | assert what rest ih | group body times rest _ ih =>
    have := ih h
    simp only [leaf.sizeOf_spec, assert.sizeOf_spec, group.sizeOf_spec]
    omega
  | bar rest _ =>
    obtain ⟨rfl, rfl⟩ : n = n' ∧ rest = q := by simpa [afterBar] using h
    simp

theorem exists_afterBar {p q : Pattern} {n n' : Nat} (h : p.afterBar n = some (n', q))
    (first : Nat) : ∃ next, p.afterBar first = some (next, q) := by
  induction p generalizing n first with
  | done => cases h
  | leaf what times rest ih | assert what rest ih | group body times rest _ ih => exact ih h _
  | bar rest _ =>
    obtain ⟨rfl, rfl⟩ : n = n' ∧ rest = q := by simpa [afterBar] using h
    exact ⟨first, rfl⟩

theorem le_of_afterBar {p q : Pattern} {n n' : Nat} (h : p.afterBar n = some (n', q)) :
    n ≤ n' ∧ n' + q.groupCount = n + p.groupCount := by
  induction p generalizing n with
  | done => cases h
  | leaf what times rest ih | assert what rest ih => exact ih h
  | group body times rest _ ih =>
    have := ih h
    simp only [groupCount]
    omega
  | bar rest _ =>
    obtain ⟨rfl, rfl⟩ : n = n' ∧ rest = q := by simpa [afterBar] using h
    simp [groupCount]

end Pattern

/-- A part of a pattern. Its groups are numbered from `next` on. -/
inductive Part
  /-- The items up to the first bar. -/
  | seq (p : Pattern) (next : Nat)
  /-- The alternatives, of which one is chosen. -/
  | alts (p : Pattern) (next : Nat)
  /-- The alternatives, each of them with a head. -/
  | chain (p : Pattern) (next : Nat)
  /-- The iterations of group `g` that follow `count` others. -/
  | rounds (body : Pattern) (times : Repetition) (g count : Nat)

namespace Part

def first : Part → Nat
  | seq _ n | alts _ n | chain _ n => n
  | rounds _ _ g _ => g

def bound : Part → Nat
  | seq p n | alts p n | chain p n => n + p.groupCount
  | rounds body _ g _ => g + 1 + body.groupCount

end Part

end PosixRegex
