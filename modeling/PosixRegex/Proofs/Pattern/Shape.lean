import PosixRegex.Proofs.Pattern.Nullable

namespace PosixRegex

def Leaf.Starts (o : Options) (l : Locale) (c : Char) : Leaf → Prop
  | .backRef _ => True
  | what => what.Admits o l c

namespace Pattern

/-- The number of characters of every text of the alternatives, if they all have the same number.
The items so far have `n` characters. -/
def width? : (n : Nat) → Pattern → Option Nat
  | n, done => some n
  | n, leaf what times rest =>
    if !what.isBackRef && times.isFixed then width? (n + times.min) rest else none
  | n, assert _ rest => width? n rest
  | n, group body times rest =>
    if times.isFixed && 0 < times.min then
      (width? 0 body).bind fun k => width? (n + times.min * k) rest
    else none
  | n, bar rest => if width? 0 rest = some n then some n else none

/-- Whether only single characters, repeated or not, groups of a fixed number of characters and
assertions are left of the alternative. -/
def isPlain : Pattern → Bool
  | done | bar _ => true
  | leaf what _ rest => !what.isBackRef && rest.isPlain
  | assert _ rest => rest.isPlain
  | group body times rest =>
    (times.isOnce && (body.afterBar 0).isNone && body.isPlain ||
      times.isFixed && 0 < times.min && (body.width? 0).isSome) && rest.isPlain

/-- Whether one of the alternatives may start with the character `c`. `ok` tells whether the items
so far may be empty. -/
def Starts (o : Options) (l : Locale) (c : Char) : (ok : Bool) → Pattern → Prop
  | _, done => False
  | ok, leaf what times rest => ok = true ∧ what.Starts o l c ∨
      Starts o l c (ok && (times.min == 0 || what.isBackRef)) rest
  | ok, assert _ rest => Starts o l c ok rest
  | ok, group body times rest => ok = true ∧ Starts o l c true body ∨
      Starts o l c (ok && (times.min == 0 || body.isNullable true true)) rest
  | _, bar rest => Starts o l c true rest

/-- Whether what is left of the alternative may start with the character `c`, where `after` tells
that of what follows the pattern. -/
def Leads (o : Options) (l : Locale) (after : Char → Prop) (c : Char) : Pattern → Prop
  | done | bar _ => after c
  | leaf what times rest => what.Starts o l c ∨
      (times.min == 0 || what.isBackRef) = true ∧ rest.Leads o l after c
  | assert _ rest => rest.Leads o l after c
  | group body times rest => body.Starts o l c true ∨
      (times.min == 0 || body.isNullable true true) = true ∧ rest.Leads o l after c

/-- No choice of a number of repetitions misses the longest match. A choice does not if what is left
is plain, or if nothing that is left starts like what is repeated. `last` tells whether what follows
the pattern is plain, and `after` what it may start with. -/
def Tidy (o : Options) (l : Locale) : (last : Bool) → (after : Char → Prop) → Pattern → Prop
  | _, _, done => True
  | last, after, leaf what times rest =>
    (times.isFixed = true ∨ (rest.isPlain && last) = true ∨
      ∀ c, what.Starts o l c → ¬rest.Leads o l after c) ∧ Tidy o l last after rest
  | last, after, assert _ rest | last, after, bar rest => Tidy o l last after rest
  | last, after, group body times rest =>
    Tidy o l (times.isOnce && rest.isPlain && last) (fun c =>
      times.belowMax 1 = true ∧ body.Starts o l c true ∨ rest.Leads o l after c) body ∧
    (times.isFixed = true ∧ 0 < times.min ∨ (rest.isPlain && last) = true ∨
      body.isNullable true true = false ∧
        ∀ c, body.Starts o l c true → ¬rest.Leads o l after c) ∧ Tidy o l last after rest

variable {o : Options} {l : Locale} {p q rest : Pattern} {n n' : Nat} {last ok : Bool}
  {after : Char → Prop} {c : Char} {cs : List Char}

theorem afterBar_eq_none (h : p.afterBar n = none) : p.afterBar n' = none := by
  refine Option.eq_none_iff_forall_ne_some.mpr fun (first, q) hq => ?_
  obtain ⟨first', hfirst⟩ := exists_afterBar hq n
  cases h.symm.trans hfirst

@[simp] theorem isPlain_chars : (chars cs rest).isPlain = rest.isPlain := by
  induction cs with
  | nil => rfl
  | cons c cs ih => exact ih

@[simp] theorem tidy_chars : (chars cs rest).Tidy o l last after ↔ rest.Tidy o l last after := by
  induction cs with
  | nil => rfl
  | cons c cs ih => exact (and_iff_right (Or.inl rfl)).trans ih

theorem tidy_of_afterBar (h : p.afterBar n = some (n', q)) (hp : p.Tidy o l last after) :
    q.Tidy o l last after := by
  induction p generalizing n with
  | done => cases h
  | leaf what times rest ih => exact ih h hp.2
  | assert what rest ih => exact ih h hp
  | group body times rest _ ih => exact ih h hp.2.2
  | bar rest _ =>
    obtain ⟨rfl, rfl⟩ : n = n' ∧ rest = q := by simpa [afterBar] using h
    exact hp

theorem width?_of_afterBar {i k : Nat} (h : p.afterBar n = some (n', q))
    (hp : p.width? i = some k) : q.width? 0 = some k := by
  induction p generalizing n i with
  | done => cases h
  | leaf what times rest ih => exact ih h (Option.ite_none_right_eq_some.mp hp).2
  | assert what rest ih => exact ih h hp
  | group body times rest _ ih =>
    obtain ⟨w, -, hrest⟩ := Option.bind_eq_some_iff.mp (Option.ite_none_right_eq_some.mp hp).2
    exact ih h hrest
  | bar rest _ =>
    obtain ⟨rfl, rfl⟩ : n = n' ∧ rest = q := by simpa [afterBar] using h
    obtain ⟨hrest, hk⟩ := Option.ite_none_right_eq_some.mp hp
    exact hrest.trans hk

theorem starts_of_afterBar (h : p.afterBar n = some (n', q)) (hq : q.Starts o l c true) :
    p.Starts o l c ok := by
  induction p generalizing n ok with
  | done => cases h
  | leaf what times rest ih => exact Or.inr (ih h)
  | assert what rest ih => exact ih h
  | group body times rest _ ih => exact Or.inr (ih h)
  | bar rest _ =>
    obtain ⟨rfl, rfl⟩ : n = n' ∧ rest = q := by simpa [afterBar] using h
    exact hq

theorem starts_of_leads (h : p.Leads o l (fun _ => False) c) : p.Starts o l c true := by
  induction p with
  | done | bar => cases h
  | leaf what times rest ih =>
    obtain h | ⟨hempty, h⟩ := h
    · exact Or.inl ⟨rfl, h⟩
    · rw [Starts, hempty]
      exact Or.inr (ih h)
  | assert what rest ih => exact ih h
  | group body times rest _ ih =>
    obtain h | ⟨hempty, h⟩ := h
    · exact Or.inl ⟨rfl, h⟩
    · rw [Starts, hempty]
      exact Or.inr (ih h)

end Pattern

def Part.isPlain : Part → Bool
  | seq p _ => p.isPlain
  | alts p _ | chain p _ => (p.afterBar 0).isNone && p.isPlain
  | rounds _ _ _ _ => false

end PosixRegex
