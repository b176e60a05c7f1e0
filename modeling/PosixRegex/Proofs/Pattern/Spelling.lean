import Mathlib.Tactic.IntervalCases
import PosixRegex.Pattern.Token
import PosixRegex.Proofs.Pattern.Printing

namespace PosixRegex

namespace Dialect

def operator : Dialect → Char → List Char
  | basic, c => ['\\', c]
  | extended, c => [c]

def specials : Dialect → List Char
  | basic => ['\\', '[', '.', '*', '^', '$']
  | extended => Leaf.specials

def quote (d : Dialect) (c : Char) : List Char := if c ∈ d.specials then ['\\', c] else [c]

end Dialect

inductive Quantifier
  | star
  | plus
  | optional
  | exactly (n : Nat)
  | interval (b : Bounds)

namespace Quantifier

def bounds (b : Bounds) : List Char :=
  Nat.toDigits 10 b.min ++ ',' :: b.max.elim [] (Nat.toDigits 10)

def print (d : Dialect) : Quantifier → List Char
  | star => ['*']
  | plus => d.operator '+'
  | optional => d.operator '?'
  | exactly n => d.operator '\x7b' ++ (Nat.toDigits 10 n ++ Bounds.close d)
  | interval b => d.operator '\x7b' ++ (bounds b ++ Bounds.close d)

def ofBounds (b : Bounds) : Except PatternFault Token :=
  match b.repetition? with
  | some times => .ok (.quantifier times)
  | none => .error .badInterval

def token : Quantifier → Except PatternFault Token
  | star => .ok .star
  | plus => .ok (.quantifier .plus)
  | optional => .ok (.quantifier .optional)
  | exactly n => ofBounds ⟨n, some n⟩
  | interval b => ofBounds b

end Quantifier

def Repetition.token : Repetition → Token
  | star => .star
  | times => .quantifier times

theorem Bounds.quantifier_eq_token {b : Bounds} {times : Repetition}
    (h : b.repetition? = some times) : .quantifier times = times.token := by
  obtain ⟨m, n⟩ := b
  cases n with
  | none =>
    obtain rfl := Option.some.inj (Option.ite_none_right_eq_some.mp h).2
    rfl
  | some n =>
    obtain rfl := Option.some.inj (Option.ite_none_right_eq_some.mp h).2
    rfl

theorem Quantifier.exists_times {q : Quantifier} {token : Token} (h : q.token = .ok token) :
    ∃ times : Repetition, token = times.token := by
  have hbounds : ∀ {b : Bounds}, ofBounds b = .ok token →
      ∃ times : Repetition, token = times.token := by
    intro b h
    unfold ofBounds at h
    split at h
    · rename_i times htimes
      cases h
      exact ⟨times, Bounds.quantifier_eq_token htimes⟩
    · cases h
  cases q with
  | star =>
    cases h
    exact ⟨.star, rfl⟩
  | plus =>
    cases h
    exact ⟨.plus, rfl⟩
  | optional =>
    cases h
    exact ⟨.optional, rfl⟩
  | exactly n => exact hbounds h
  | interval b => exact hbounds h

namespace Bounds

variable {d : Dialect} {rest : List Char} {offset : Nat}

theorem exists_close_eq (d : Dialect) (rest : List Char) :
    ∃ x xs, close d ++ rest = x :: xs ∧ x.isDigit = false ∧ x ≠ ',' := by
  cases d with
  | basic => exact ⟨_, _, rfl, rfl, by decide⟩
  | extended => exact ⟨_, _, rfl, rfl, by decide⟩

theorem eat?_close (d : Dialect) (rest : List Char) (offset : Nat) :
    ∃ offset', Cursor.eat? ⟨close d ++ rest, offset⟩ (close d) = some ⟨rest, offset'⟩ :=
  ⟨_, Cursor.eat?_append (close d) rest offset⟩

theorem number?_close (d : Dialect) (n offset : Nat) (rest : List Char) : ∃ offset',
    Cursor.number? ⟨Nat.toDigits 10 n ++ (close d ++ rest), offset⟩ =
      some (n, ⟨close d ++ rest, offset'⟩) := by
  obtain ⟨x, xs, hclose, hdigit, -⟩ := exists_close_eq d rest
  refine Cursor.number?_toDigits n offset fun c cs hc => ?_
  rw [hclose] at hc
  exact (List.cons.inj hc).1 ▸ hdigit

theorem number?_comma (n offset : Nat) (rest : List Char) : ∃ offset',
    Cursor.number? ⟨Nat.toDigits 10 n ++ ',' :: rest, offset⟩ =
      some (n, ⟨',' :: rest, offset'⟩) :=
  Cursor.number?_toDigits n offset fun _ _ hc => (List.cons.inj hc).1 ▸ rfl

theorem read?_exactly (n offset : Nat) : ∃ offset',
    read? d ⟨Nat.toDigits 10 n ++ (close d ++ rest), offset⟩ =
      some (⟨n, some n⟩, ⟨rest, offset'⟩) := by
  obtain ⟨offset₁, hn⟩ := number?_close d n offset rest
  obtain ⟨offset₂, hclose⟩ := eat?_close d rest offset₁
  have hcomma : Cursor.eat? ⟨close d ++ rest, offset₁⟩ [','] = none := by
    obtain ⟨x, xs, hx, -, hne⟩ := exists_close_eq d rest
    rw [hx]
    exact Cursor.eat?_singleton_of_ne hne
  refine ⟨offset₂, ?_⟩
  simp only [read?, hn, Option.bind_eq_bind, Option.bind_some, hcomma, hclose, Option.map_some]

theorem read?_bounds (b : Bounds) (offset : Nat) : ∃ offset',
    read? d ⟨Quantifier.bounds b ++ (close d ++ rest), offset⟩ = some (b, ⟨rest, offset'⟩) := by
  obtain ⟨m, n⟩ := b
  have hcomma : ∀ rest offset, Cursor.eat? ⟨',' :: rest, offset⟩ [','] =
      some ⟨rest, offset + 1⟩ := fun rest offset => Cursor.eat?_append [','] rest offset
  cases n with
  | none =>
    obtain ⟨offset₁, hm⟩ := number?_comma m offset (close d ++ rest)
    obtain ⟨offset₂, hclose⟩ := eat?_close d rest (offset₁ + 1)
    have hnone : Cursor.number? ⟨close d ++ rest, offset₁ + 1⟩ = none := by
      obtain ⟨x, xs, hx, hdigit, -⟩ := exists_close_eq d rest
      simp [Cursor.number?, hx, hdigit]
    refine ⟨offset₂, ?_⟩
    simp only [Quantifier.bounds, Option.elim_none, List.append_assoc, List.cons_append,
      List.nil_append]
    simp only [read?, hm, Option.bind_eq_bind, Option.bind_some, hcomma, hnone, hclose,
      Option.map_some]
  | some n =>
    obtain ⟨offset₁, hm⟩ := number?_comma m offset (Nat.toDigits 10 n ++ (close d ++ rest))
    obtain ⟨offset₂, hn⟩ := number?_close d n (offset₁ + 1) rest
    obtain ⟨offset₃, hclose⟩ := eat?_close d rest offset₂
    refine ⟨offset₃, ?_⟩
    simp only [Quantifier.bounds, Option.elim_some, List.append_assoc, List.cons_append]
    simp only [read?, hm, Option.bind_eq_bind, Option.bind_some, hcomma, hn, hclose,
      Option.map_some]

end Bounds

namespace Token

variable {d : Dialect} {token : Token} {rest : List Char}

/-- What is read of `cs` in front of `rest`, however long the text before is. -/
def Reads (d : Dialect) (cs rest : List Char) (found : Except PatternFault Token) : Prop :=
  ∃ x xs, cs = x :: xs ∧ ∀ offset,
    (read d x ⟨xs ++ rest, offset⟩).map (fun found => (found.1, found.2.rest)) =
      found.map (·, rest)

theorem reads_of_eq {x : Char} (h : ∀ c, read d x c = .ok (token, c)) :
    Reads d [x] rest (.ok token) :=
  ⟨x, [], rfl, fun offset => by rw [List.nil_append, h]; rfl⟩

theorem reads_operator {c : Char}
    (hbasic : ∀ cur, readBasicOperator? c cur = some (.ok (token, cur)))
    (hextended : ∀ cur, read .extended c cur = .ok (token, cur)) :
    Reads d (d.operator c) rest (.ok token) := by
  cases d with
  | basic =>
    refine ⟨'\\', [c], rfl, fun offset => ?_⟩
    simp only [read, readEscape, Cursor.next?, List.cons_append, List.nil_append, hbasic,
      Option.getD_some]
    rfl
  | extended => exact reads_of_eq hextended

theorem reads_escape {c : Char} (hbasic : d = .basic → ∀ cur, readBasicOperator? c cur = none) :
    Reads d ['\\', c] rest (.ok (ofEscape c)) := by
  refine ⟨'\\', [c], rfl, fun offset => ?_⟩
  cases d with
  | basic =>
    simp only [read, readEscape, Cursor.next?, List.cons_append, List.nil_append, hbasic rfl,
      Option.getD_none]
    rfl
  | extended => rfl

theorem ofEscape_of_special {c : Char} (hc : c ∈ d.specials) :
    ofEscape c = .char c ∧ (d = .basic → ∀ cur, readBasicOperator? c cur = none) := by
  cases d with
  | basic =>
    simp only [Dialect.specials, List.mem_cons, List.not_mem_nil, or_false] at hc
    rcases hc with rfl | rfl | rfl | rfl | rfl | rfl <;> exact ⟨rfl, fun _ _ => rfl⟩
  | extended =>
    simp only [Dialect.specials, Leaf.specials, List.mem_cons, List.not_mem_nil, or_false] at hc
    rcases hc with rfl | rfl | rfl | rfl | rfl | rfl | rfl | rfl | rfl | rfl | rfl | rfl <;>
      exact ⟨rfl, nofun⟩

theorem reads_quote (d : Dialect) (c : Char) (rest : List Char) :
    Reads d (d.quote c) rest (.ok (.char c)) := by
  unfold Dialect.quote
  split
  · rename_i hc
    obtain ⟨hescape, hbasic⟩ := ofEscape_of_special hc
    exact hescape ▸ reads_escape hbasic
  · rename_i hc
    -- A character that is not special has no other meaning, which these inequalities decide.
    refine reads_of_eq fun cur => ?_
    cases d with
    | basic =>
      simp only [Dialect.specials, List.mem_cons, List.not_mem_nil, or_false, not_or] at hc
      obtain ⟨h₁, h₂, h₃, h₄, h₅, h₆⟩ := hc
      simp [read, h₆]
    | extended =>
      simp only [Dialect.specials, Leaf.specials, List.mem_cons, List.not_mem_nil, or_false,
        not_or] at hc
      obtain ⟨h₁, h₂, h₃, h₄, h₅, h₆, h₇, h₈, h₉, h₁₀, h₁₁, h₁₂⟩ := hc
      simp [read, readExtendedOperator?]

theorem reads_backRef {g : Nat} (h : 1 ≤ g ∧ g ≤ 9) :
    Reads d (Leaf.print (.backRef g)) rest (.ok (.backRef g)) := by
  obtain ⟨h₁, h₉⟩ := h
  interval_cases g <;> exact reads_escape fun _ _ => rfl

theorem reads_word (edge : WordEdge) :
    Reads d (Assertion.print (.word edge)) rest (.ok (.word edge)) := by
  cases edge <;> exact reads_escape fun _ _ => rfl

theorem reads_dollar (h : d = .basic → ∀ offset, endsExpression ⟨rest, offset⟩ = true) :
    Reads d ['$'] rest (.ok .dollar) := by
  refine ⟨'$', [], rfl, fun offset => ?_⟩
  cases d with
  | basic =>
    have hread : read .basic '$' ⟨rest, offset⟩ = .ok
        (if endsExpression ⟨rest, offset⟩ then .dollar else .char '$', ⟨rest, offset⟩) := rfl
    rw [List.nil_append, hread, h rfl]
    rfl
  | extended => rfl

theorem reads_interval {cs : List Char} {b : Bounds}
    (h : ∀ offset, ∃ offset',
      Bounds.read? d ⟨cs ++ (Bounds.close d ++ rest), offset⟩ = some (b, ⟨rest, offset'⟩)) :
    Reads d (d.operator '\x7b' ++ (cs ++ Bounds.close d)) rest (Quantifier.ofBounds b) := by
  have hinterval : ∀ offset, (readInterval d ⟨cs ++ (Bounds.close d ++ rest), offset⟩).map
      (fun found => (found.1, found.2.rest)) = (Quantifier.ofBounds b).map (·, rest) := by
    intro offset
    obtain ⟨offset', hb⟩ := h offset
    simp only [readInterval, Quantifier.ofBounds, hb]
    cases b.repetition? <;> rfl
  cases d with
  | basic =>
    refine ⟨'\\', '\x7b' :: (cs ++ Bounds.close .basic), rfl, fun offset => ?_⟩
    rw [List.cons_append, List.append_assoc]
    exact hinterval _
  | extended =>
    refine ⟨'\x7b', cs ++ Bounds.close .extended, rfl, fun offset => ?_⟩
    rw [List.append_assoc]
    exact hinterval _

theorem reads_quantifier (q : Quantifier) : Reads d (q.print d) rest q.token := by
  cases q with
  | star => exact reads_of_eq fun _ => rfl
  | plus | optional => exact reads_operator (fun _ => rfl) fun _ => rfl
  | exactly n => exact reads_interval (Bounds.read?_exactly n)
  | interval b => exact reads_interval (Bounds.read?_bounds b)

end Token

end PosixRegex
