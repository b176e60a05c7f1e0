import PosixRegex.Proofs.Pattern.BracketText
import PosixRegex.Proofs.Pattern.Spelling

namespace PosixRegex

/-- What may stand behind a whole pattern: nothing, or what starts with a bar or with the end of a
group. -/
def Delimited (d : Dialect) (suffix : List Char) : Prop :=
  suffix = [] ∨ ∃ x rest, (x = '|' ∨ x = ')') ∧ suffix = d.operator x ++ rest

/-- The same has been read in two texts, where `suffix` is behind what is left of the first one, and
no more than `length` characters are. -/
structure SameRead {α : Type} (suffix : List Char) (length : Nat) (x x' : α × Cursor) : Prop where
  value : x'.1 = x.1
  rest : x'.2.rest = x.2.rest ++ suffix
  shrinks : x.2.rest.length ≤ length

variable {d : Dialect} {suffix : List Char} {c c' : Cursor} {n : Nat}

theorem rel_cases {α β : Type} {r : α → β → Prop} {a : Option α} {b : Option β}
    (h : Option.Rel r a b) : (a = none ∧ b = none) ∨ ∃ x y, a = some x ∧ b = some y ∧ r x y := by
  cases h with
  | none => exact Or.inl ⟨rfl, rfl⟩
  | some h => exact Or.inr ⟨_, _, rfl, rfl, h⟩

theorem SameRead.mono {α : Type} {x x' : α × Cursor} {k : Nat} (h : SameRead suffix n x x')
    (hle : n ≤ k) : SameRead suffix k x x' :=
  ⟨h.value, h.rest, Nat.le_trans h.shrinks hle⟩

namespace Delimited

variable (hs : Delimited d suffix)

include hs

theorem head? {x : Char} (hx : x ∈ suffix.head?) : x = '\\' ∨ x = '|' ∨ x = ')' := by
  obtain rfl | ⟨y, rest, hy, rfl⟩ := hs
  · cases hx
  · cases d with
    | basic =>
      cases hx
      exact Or.inl rfl
    | extended =>
      cases hx
      exact Or.inr hy

theorem takeWhile_append (cs : List Char) :
    (cs ++ suffix).takeWhile Char.isDigit = cs.takeWhile Char.isDigit := by
  induction cs with
  | nil =>
    cases suffix with
    | nil => rfl
    | cons x xs =>
      obtain rfl | rfl | rfl := hs.head? rfl
      all_goals rfl
  | cons x cs ih => rw [List.cons_append, List.takeWhile_cons, List.takeWhile_cons, ih]

theorem dropWhile_append (cs : List Char) :
    (cs ++ suffix).dropWhile Char.isDigit = cs.dropWhile Char.isDigit ++ suffix := by
  induction cs with
  | nil =>
    cases suffix with
    | nil => rfl
    | cons x xs =>
      obtain rfl | rfl | rfl := hs.head? rfl
      all_goals rfl
  | cons x cs ih =>
    rw [List.cons_append, List.dropWhile_cons, List.dropWhile_cons, ih]
    split <;> rfl

theorem ne_nil_of_prefix {x : Char} {xs cs : List Char} (hx : x ∉ ['\\', '|', ')'])
    (h : x :: xs <+: cs ++ suffix) : cs ≠ [] := by
  rintro rfl
  cases suffix with
  | nil => cases List.prefix_nil.mp h
  | cons y ys =>
    obtain rfl : x = y := (List.cons_prefix_cons.mp h).1
    exact hx (by simpa using hs.head? rfl)

/-- The end of an interval is not taken from behind the text, not even in part. -/
theorem length_le_of_close {cs : List Char} (h : Bounds.close d <+: cs ++ suffix) :
    (Bounds.close d).length ≤ cs.length := by
  cases d with
  | extended => exact List.length_pos_iff.mpr (hs.ne_nil_of_prefix (by decide) h)
  | basic =>
    match cs with
    | [] =>
      obtain rfl | ⟨y, rest, rfl | rfl, rfl⟩ := hs
      · cases List.prefix_nil.mp h
      · cases (List.cons_prefix_cons.mp (List.cons_prefix_cons.mp h).2).1
      · cases (List.cons_prefix_cons.mp (List.cons_prefix_cons.mp h).2).1
    | [x] =>
      have htail : ['\x7d'] <+: [] ++ suffix := (List.cons_prefix_cons.mp h).2
      exact absurd rfl (hs.ne_nil_of_prefix (by decide) htail)
    | x :: y :: cs => exact Nat.le_add_left 2 cs.length

end Delimited

namespace Cursor

theorem next?_suffix {x : Char} {after : Cursor} (h : c'.rest = c.rest ++ suffix)
    (hc : c.next? = some (x, after)) :
    ∃ after', c'.next? = some (x, after') ∧ after'.rest = after.rest ++ suffix ∧
      after.rest.length + 1 = c.rest.length := by
  obtain ⟨rest, offset⟩ := c
  cases rest with
  | nil => cases hc
  | cons y ys =>
    cases hc
    rw [next?, h]
    exact ⟨_, rfl, rfl, rfl⟩

theorem number?_suffix (hs : Delimited d suffix) (h : c'.rest = c.rest ++ suffix) :
    Option.Rel (SameRead suffix c.rest.length) c.number? c'.number? := by
  unfold number?
  rw [h, hs.takeWhile_append, hs.dropWhile_append]
  split
  · exact .none
  · exact .some ⟨rfl, rfl, (List.dropWhile_suffix _).length_le⟩

theorem eat?_suffix {word : List Char} (h : c'.rest = c.rest ++ suffix)
    (hword : word <+: c.rest ++ suffix → word.length ≤ c.rest.length) :
    Option.Rel (fun a a' : Cursor => a'.rest = a.rest ++ suffix ∧ a.rest.length ≤ c.rest.length)
      (c.eat? word) (c'.eat? word) := by
  unfold eat?
  rw [h]
  by_cases hreach : word <+: c.rest ++ suffix
  · have hstarts : word <+: c.rest :=
      List.prefix_of_prefix_length_le hreach (List.prefix_append _ _) (hword hreach)
    rw [if_pos (List.isPrefixOf_iff_prefix.mpr hstarts),
      if_pos (List.isPrefixOf_iff_prefix.mpr hreach)]
    refine .some ⟨List.drop_append_of_le_length hstarts.length_le, ?_⟩
    rw [List.length_drop]
    exact Nat.sub_le _ _
  · have hstarts : ¬word <+: c.rest := fun h => hreach (h.trans (List.prefix_append _ _))
    rw [if_neg fun h => hstarts (List.isPrefixOf_iff_prefix.mp h),
      if_neg fun h => hreach (List.isPrefixOf_iff_prefix.mp h)]
    exact .none

theorem eat?_comma (hs : Delimited d suffix) (h : c'.rest = c.rest ++ suffix) :
    Option.Rel (fun a a' : Cursor => a'.rest = a.rest ++ suffix ∧ a.rest.length ≤ c.rest.length)
      (c.eat? [',']) (c'.eat? [',']) :=
  eat?_suffix h fun hreach => List.length_pos_iff.mpr (hs.ne_nil_of_prefix (by decide) hreach)

end Cursor

theorem Bounds.read?_suffix (hs : Delimited d suffix) (h : c'.rest = c.rest ++ suffix) :
    Option.Rel (SameRead suffix c.rest.length) (read? d c) (read? d c') := by
  have hclose : ∀ {a a' : Cursor} (bounds : Bounds), a'.rest = a.rest ++ suffix →
      a.rest.length ≤ c.rest.length →
      Option.Rel (SameRead suffix c.rest.length)
        ((a.eat? (close d)).map fun a => (bounds, a))
        ((a'.eat? (close d)).map fun a => (bounds, a)) := by
    intro a a' bounds ha hle
    obtain ⟨he, he'⟩ | ⟨e, e', he, he', hrest, hele⟩ :=
      rel_cases (Cursor.eat?_suffix ha hs.length_le_of_close)
    · rw [he, he']
      exact .none
    · rw [he, he']
      exact .some ⟨rfl, hrest, Nat.le_trans hele hle⟩
  unfold read?
  rcases rel_cases (Cursor.number?_suffix hs h) with
    ⟨hm, hm'⟩ | ⟨⟨m, a⟩, ⟨m', a'⟩, hm, hm', rfl, ha, hle⟩
  · rw [hm, hm']
    exact .none
  · rw [hm, hm']
    simp only at ha hle
    simp only [Option.bind_eq_bind, Option.bind_some]
    rcases rel_cases (Cursor.eat?_comma hs ha) with ⟨hb, hb'⟩ | ⟨b, b', hb, hb', hrest, hble⟩
    · rw [hb, hb']
      exact hclose _ ha hle
    · rw [hb, hb']
      simp only
      rcases rel_cases (Cursor.number?_suffix hs hrest) with
        ⟨hn, hn'⟩ | ⟨⟨k, e⟩, ⟨k', e'⟩, hn, hn', rfl, he, hele⟩
      · rw [hn, hn']
        exact hclose _ hrest (Nat.le_trans hble hle)
      · rw [hn, hn']
        exact hclose _ he (Nat.le_trans hele (Nat.le_trans hble hle))

namespace Token

theorem readInterval_suffix (hs : Delimited d suffix) (h : c'.rest = c.rest ++ suffix)
    {x : Token × Cursor} (hx : readInterval d c = .ok x) :
    ∃ x', readInterval d c' = .ok x' ∧ SameRead suffix c.rest.length x x' := by
  unfold readInterval at hx ⊢
  obtain ⟨hb, hb'⟩ | ⟨⟨bounds, a⟩, ⟨bounds', a'⟩, hb, hb', rfl, ha, hle⟩ :=
    rel_cases (Bounds.read?_suffix hs h)
  · rw [hb] at hx
    rw [hb']
    cases d with
    | basic => cases hx
    | extended =>
      cases hx
      exact ⟨_, rfl, rfl, h, Nat.le_refl _⟩
  · rw [hb] at hx
    rw [hb']
    simp only at hx ⊢
    split at hx
    · cases hx
      exact ⟨_, rfl, rfl, ha, hle⟩
    · cases hx

theorem endsExpression_suffix (hs : Delimited .basic suffix) (h : c'.rest = c.rest ++ suffix) :
    endsExpression c' = endsExpression c := by
  unfold endsExpression
  rw [h]
  obtain rfl | ⟨x, rest, hx, rfl⟩ := hs
  · rw [List.append_nil]
  · match c.rest with
    | [] => obtain rfl | rfl := hx <;> rfl
    | [y] =>
      by_cases hy : y = '\\'
      · subst hy
        rfl
      · simp [hy]
    | y :: z :: cs =>
      by_cases hy : y = '\\'
      · subst hy
        rfl
      · simp [hy]

theorem readEscape_suffix (hs : Delimited d suffix) (h : c'.rest = c.rest ++ suffix)
    {x : Token × Cursor} (hx : readEscape d c = .ok x) :
    ∃ x', readEscape d c' = .ok x' ∧ SameRead suffix c.rest.length x x' := by
  unfold readEscape at hx ⊢
  cases hn : c.next? with
  | none =>
    rw [hn] at hx
    cases hx
  | some found =>
    obtain ⟨y, after⟩ := found
    obtain ⟨after', hn', hrest, hlt⟩ := Cursor.next?_suffix h hn
    have hplain : ∀ token : Token, x = (token, after) → ∃ x' : Token × Cursor,
        (.ok (token, after') : Except PatternFault (Token × Cursor)) = .ok x' ∧
          SameRead suffix c.rest.length x x' := by
      rintro token rfl
      exact ⟨_, rfl, rfl, hrest, by simp only; omega⟩
    rw [hn] at hx
    rw [hn']
    cases d with
    | extended => exact hplain _ (Except.ok.inj hx).symm
    | basic =>
      simp only at hx ⊢
      unfold readBasicOperator? at hx ⊢
      split at hx
      case h_3 =>
        obtain ⟨x', hx', hsame⟩ := readInterval_suffix hs hrest hx
        exact ⟨x', hx', hsame.mono (by omega)⟩
      all_goals exact hplain _ (Except.ok.inj hx).symm

/-- A token is read in the same way if a bar or the end of a group stands behind the text. -/
theorem read_suffix (hs : Delimited d suffix) (h : c'.rest = c.rest ++ suffix) {x : Char}
    {token : Token × Cursor} (hx : read d x c = .ok token) :
    ∃ token', read d x c' = .ok token' ∧ SameRead suffix c.rest.length token token' := by
  have hplain : ∀ t : Token, token = (t, c) → ∃ token' : Token × Cursor,
      (.ok (t, c') : Except PatternFault (Token × Cursor)) = .ok token' ∧
        SameRead suffix c.rest.length token token' := by
    rintro t rfl
    exact ⟨_, rfl, rfl, h, Nat.le_refl _⟩
  unfold read at hx ⊢
  split at hx
  · exact readEscape_suffix hs h hx
  iterate 4
    · exact hplain _ (Except.ok.inj hx).symm
  · cases d with
    | basic =>
      simp only at hx ⊢
      rw [endsExpression_suffix hs h]
      exact hplain _ (Except.ok.inj hx).symm
    | extended =>
      simp only at hx ⊢
      unfold readExtendedOperator? at hx ⊢
      split at hx
      case h_4 => exact readInterval_suffix hs h hx
      all_goals exact hplain _ (Except.ok.inj hx).symm

end Token

theorem Bracket.read_suffix {opened : Nat} (opened' : Nat) (hs : Delimited d suffix)
    (h : c'.rest = c.rest ++ suffix) {x : Bracket × Cursor} (hx : read opened c = .ok x) :
    ∃ x', read opened' c' = .ok x' ∧ SameRead suffix c.rest.length x x' := by
  obtain ⟨rest, offset⟩ := c
  obtain ⟨_, offset'⟩ := c'
  obtain rfl := h
  have hsealed : Sealed rest suffix := by
    refine Or.inr fun x hx => ?_
    obtain rfl | rfl | rfl := hs.head? hx
    all_goals decide
  have hextends := extends_read hsealed opened opened' offset offset'
  rw [hx] at hextends
  obtain ⟨hsuffix, n, hx'⟩ := hextends
  exact ⟨_, hx', rfl, rfl, hsuffix.length_le⟩

end PosixRegex
