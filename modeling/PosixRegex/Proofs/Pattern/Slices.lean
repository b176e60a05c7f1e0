import PosixRegex.Proofs.Pattern.Passage

namespace PosixRegex

def from? : List Char → Nat → Option (List Char)
  | cs, 0 => some cs
  | [], _ + 1 => none
  | c :: cs, pos + 1 => if c.utf8Size ≤ pos + 1 then from? cs (pos + 1 - c.utf8Size) else none

def upTo? : List Char → Nat → Option (List Char)
  | _, 0 => some []
  | [], _ + 1 => none
  | c :: cs, pos + 1 =>
    if c.utf8Size ≤ pos + 1 then (upTo? cs (pos + 1 - c.utf8Size)).map (c :: ·) else none

theorem eq_nil_of_byteLength {cs : List Char} (h : byteLength cs = 0) : cs = [] :=
  List.length_eq_zero_iff.mp (Nat.le_zero.mp (h ▸ length_le_byteLength cs))

theorem cons_eq_append_iff {c : Char} {cs before rest : List Char} {pos : Nat} :
    c :: cs = before ++ rest ∧ byteLength before = pos + 1 ↔
      c.utf8Size ≤ pos + 1 ∧
        ∃ tail, before = c :: tail ∧ cs = tail ++ rest ∧ byteLength tail = pos + 1 - c.utf8Size := by
  constructor
  · rintro ⟨heq, hpos⟩
    cases before with
    | nil => cases hpos
    | cons x tail =>
      obtain ⟨rfl, rfl⟩ := List.cons.inj heq
      rw [byteLength] at hpos
      exact ⟨by omega, tail, rfl, rfl, by omega⟩
  · rintro ⟨hle, tail, rfl, rfl, hpos⟩
    exact ⟨rfl, by rw [byteLength]; omega⟩

theorem from?_eq_some_iff {cs rest : List Char} {pos : Nat} :
    from? cs pos = some rest ↔ ∃ before, cs = before ++ rest ∧ byteLength before = pos := by
  fun_induction from? cs pos with
  | case1 cs =>
    constructor
    · rintro ⟨⟩
      exact ⟨[], rfl, rfl⟩
    · rintro ⟨before, rfl, hbefore⟩
      rw [eq_nil_of_byteLength hbefore, List.nil_append]
  | case2 pos =>
    refine iff_of_false nofun ?_
    rintro ⟨before, heq, hbefore⟩
    rw [(List.append_eq_nil_iff.mp heq.symm).1] at hbefore
    cases hbefore
  | case3 c cs pos hle ih =>
    rw [ih]
    constructor
    · rintro ⟨tail, htail⟩
      exact ⟨c :: tail, cons_eq_append_iff.mpr ⟨hle, tail, rfl, htail⟩⟩
    · rintro ⟨before, hbefore⟩
      obtain ⟨-, tail, -, htail⟩ := cons_eq_append_iff.mp hbefore
      exact ⟨tail, htail⟩
  | case4 c cs pos hle =>
    exact iff_of_false nofun fun ⟨_, hbefore⟩ => hle (cons_eq_append_iff.mp hbefore).1

example : from? ['é', 'a'] 1 = none ∧ from? ['é', 'a'] 2 = some ['a'] := by decide

theorem upTo?_eq_some_iff {cs before : List Char} {pos : Nat} :
    upTo? cs pos = some before ↔ ∃ rest, cs = before ++ rest ∧ byteLength before = pos := by
  fun_induction upTo? cs pos generalizing before with
  | case1 cs =>
    constructor
    · rintro ⟨⟩
      exact ⟨cs, rfl, rfl⟩
    · rintro ⟨rest, rfl, hbefore⟩
      rw [eq_nil_of_byteLength hbefore]
  | case2 pos =>
    refine iff_of_false nofun ?_
    rintro ⟨rest, heq, hbefore⟩
    rw [(List.append_eq_nil_iff.mp heq.symm).1] at hbefore
    cases hbefore
  | case3 c cs pos hle ih =>
    simp only [Option.map_eq_some_iff, ih]
    constructor
    · rintro ⟨tail, ⟨rest, htail⟩, rfl⟩
      exact ⟨rest, cons_eq_append_iff.mpr ⟨hle, tail, rfl, htail⟩⟩
    · rintro ⟨rest, hbefore⟩
      obtain ⟨-, tail, rfl, htail⟩ := cons_eq_append_iff.mp hbefore
      exact ⟨tail, ⟨rest, htail⟩, rfl⟩
  | case4 c cs pos hle =>
    exact iff_of_false nofun fun ⟨_, hbefore⟩ => hle (cons_eq_append_iff.mp hbefore).1

theorem from?_append (xs ys : List Char) : from? (xs ++ ys) (byteLength xs) = some ys :=
  from?_eq_some_iff.mpr ⟨xs, rfl, rfl⟩

theorem upTo?_append (xs ys : List Char) : upTo? (xs ++ ys) (byteLength xs) = some xs :=
  upTo?_eq_some_iff.mpr ⟨ys, rfl, rfl⟩

def Inside (text : List Char) (pos : Nat) : Prop :=
  ∃ before x after, text = before ++ x :: after ∧ byteLength before = pos

/-- Reading that fails at a slice out of place, and may reject the pattern. -/
abbrev Sliced (α : Type) := ExceptT PatternError Option α

namespace Sliced

variable (text : List Char)

def next (pos : Nat) : Option (Option (Char × Nat)) := do
  match ← from? text pos with
  | [] => return none
  | x :: _ => return some (x, pos + x.utf8Size)

def eat (word : List Char) (pos : Nat) : Option (Option Nat) := do
  return if word.isPrefixOf (← from? text pos) then some (pos + byteLength word) else none

def number (pos : Nat) : Option (Option (Nat × Nat)) := do
  let digits := ((← from? text pos).takeWhile Char.isDigit).length
  if digits = 0 then return none
  else
    let number ← upTo? (← from? text pos) digits
    return some (number.foldl (fun n d => n * 10 + (d.toNat - '0'.toNat)) 0, pos + digits)

def bounds (d : Dialect) (pos : Nat) : Option (Option (Bounds × Nat)) := do
  let some (m, pos) ← number text pos | return none
  let (max, pos) ←
    match ← eat text [','] pos with
    | none => pure (some m, pos)
    | some pos =>
      match ← number text pos with
      | none => pure (none, pos)
      | some (n, pos) => pure (some n, pos)
  return (← eat text (Bounds.close d) pos).map (⟨m, max⟩, ·)

def interval (d : Dialect) (offset pos : Nat) : Sliced (Token × Nat) := do
  match ← bounds text d pos with
  | some (bounds, after) =>
    match bounds.repetition? with
    | some times => return (.quantifier times, after)
    | none => throw ⟨offset, .badInterval⟩
  | none =>
    match d with
    | .basic => throw ⟨offset, .badInterval⟩
    | .extended => return (.char '\x7b', pos)

def escape (d : Dialect) (offset pos : Nat) : Sliced (Token × Nat) := do
  let some (x, pos) ← next text pos | throw ⟨offset, .trailingBackslash⟩
  match d, x with
  | .basic, '(' => return (.openGroup, pos)
  | .basic, ')' => return (.closeGroup, pos)
  | .basic, '\x7b' => interval text .basic offset pos
  | .basic, '|' => return (.bar, pos)
  | .basic, '+' => return (.quantifier .plus, pos)
  | .basic, '?' => return (.quantifier .optional, pos)
  | _, _ => return (Token.ofEscape x, pos)

def endsExpression (pos : Nat) : Option Bool := do
  return Token.endsExpression ⟨← from? text pos, pos⟩

def token (d : Dialect) (x : Char) (offset pos : Nat) : Sliced (Token × Nat) := do
  match d, x with
  | _, '\\' => escape text d offset pos
  | _, '[' => return (.bracket, pos)
  | _, '.' => return (.any, pos)
  | _, '*' => return (.star, pos)
  | _, '^' => return (.caret, pos)
  | .basic, '$' => return (if ← endsExpression text pos then .dollar else .char '$', pos)
  | .extended, '$' => return (.dollar, pos)
  | .extended, '+' => return (.quantifier .plus, pos)
  | .extended, '?' => return (.quantifier .optional, pos)
  | .extended, '\x7b' => interval text .extended offset pos
  | .extended, '(' => return (.openGroup, pos)
  | .extended, ')' => return (.closeGroup, pos)
  | .extended, '|' => return (.bar, pos)
  | _, _ => return (.char x, pos)

def tokenKind (pos : Nat) : Option (Option Char) := do
  return Bracket.tokenKind? ⟨← from? text pos, pos⟩

def body (k : Char) (pos : Nat) : Sliced (List Char × Nat) := do
  let rest ← from? (← from? text pos) 2
  let some (before, _) := Cursor.splitAt? k ']' rest | throw ⟨pos, .badBracketToken⟩
  let length := byteLength before
  return (← upTo? rest length, pos + (2 + length + 2))

def char (opened pos : Nat) : Sliced (Char × Nat) := do
  let some found ← next text pos | throw ⟨opened, .unmatchedBracket⟩
  return found

def element (opened pos : Nat) : Sliced (Bracket.Element × Nat) := do
  match ← tokenKind text pos with
  | none =>
    let (x, after) ← char text opened pos
    return (.char x, after)
  | some k =>
    let (body, after) ← body text k pos
    if k == ':' then
      match CharClass.ofName? (String.ofList body) with
      | none => throw ⟨pos, .unknownClass⟩
      | some cls => return (.cls cls, after)
    else
      match CollatingSymbol.resolve? body with
      | none => throw ⟨pos, .invalidCollatingElement⟩
      | some x => return (if k == '=' then .equivalence x else .char x, after)

def rangeEnd (opened pos : Nat) : Sliced (Char × Nat) := do
  match ← tokenKind text pos with
  | none => char text opened pos
  | some k =>
    if k == '.' then
      let (body, after) ← body text k pos
      match CollatingSymbol.resolve? body with
      | none => throw ⟨pos, .invalidCollatingElement⟩
      | some x => return (x, after)
    else throw ⟨pos, .rangeOutOfOrder⟩

def hyphen (pos : Nat) : Option Bool := do
  let rest ← from? text pos
  if ['-'].isPrefixOf rest && 1 < byteLength rest then
    return !([']'].isPrefixOf (← from? rest 1))
  else return false

def item (opened pos : Nat) : Sliced (BracketItem × Nat) := do
  let (e, after) ← element text opened pos
  match e with
  | .cls k => return (.cls k, after)
  | .equivalence x => return (.equivalence x, after)
  | .char lo =>
    if ← hyphen text after then
      let (hi, after) ← rangeEnd text opened (after + 1)
      if Locale.uniqueWeight hi < Locale.uniqueWeight lo then throw ⟨pos, .rangeOutOfOrder⟩
      else return (.range lo hi, after)
    else return (.char lo, after)

def items (opened : Nat) : Nat → (first : Bool) → Nat → Sliced (List BracketItem × Nat)
  | 0, _, _ => throw ⟨opened, .unmatchedBracket⟩
  | steps + 1, first, pos => do
    let some (x, after) ← next text pos | throw ⟨opened, .unmatchedBracket⟩
    if x == ']' && !first then return ([], after)
    else
      let (i, after) ← item text opened pos
      let (is, after) ← items opened steps false after
      return (i :: is, after)

def bracket (opened : Nat) : Sliced (Bracket × Nat) := do
  let body ← eat text ['^'] (opened + 1)
  let start := body.getD (opened + 1)
  let (is, after) ← items text opened ((← from? text start).length + 1) true start
  return (⟨body.isSome, is⟩, after)

def ofExcept {α : Type} (x : Except PatternError α) : Sliced α := .mk (some x)

end Sliced

/-- An error points at a character of the text. A pattern can also be too large at its end. -/
def PatternError.PointsInto (text : List Char) (e : PatternError) : Prop :=
  Inside text e.offset ∨ e.fault = .patternTooLarge ∧ e.offset = byteLength text

theorem PatternError.PointsInto.boundary {text : List Char} {e : PatternError}
    (h : e.PointsInto text) :
    (∃ before after, text = before ++ after ∧ byteLength before = e.offset) ∧
      (e.offset < byteLength text ∨ e.offset = byteLength text ∧ e.fault = .patternTooLarge) := by
  obtain ⟨before, x, after, rfl, hbefore⟩ | ⟨hfault, hend⟩ := h
  · refine ⟨⟨before, x :: after, rfl, hbefore⟩, Or.inl ?_⟩
    have hx := x.utf8Size_pos
    rw [byteLength_append, hbefore, byteLength]
    omega
  · exact ⟨⟨text, [], (List.append_nil text).symm, hend.symm⟩, Or.inr ⟨hend, hfault⟩⟩

/-- The first computation never fails, and ends like the second one: with the same error, which
points into the text, or with related results. -/
inductive Follows (text : List Char) {α β : Type} (R : α → β → Prop) :
    Sliced α → Except PatternError β → Prop
  | ok {a : α} {b : β} (h : R a b) : Follows text R (pure a) (.ok b)
  | error {e : PatternError} (h : e.PointsInto text) : Follows text R (throw e) (.error e)

namespace Follows

variable {text : List Char} {α β γ δ : Type} {R : α → β → Prop} {S : γ → δ → Prop}

theorem bind {x : Sliced α} {y : Except PatternError β} {f : α → Sliced γ}
    {g : β → Except PatternError δ} (h : Follows text R x y)
    (hf : ∀ a b, R a b → Follows text S (f a) (g b)) : Follows text S (x >>= f) (y >>= g) := by
  cases h with
  | ok h => exact hf _ _ h
  | error h => exact .error h

theorem lift {o : Option α} {a : α} {f : α → Sliced γ} {y : Except PatternError δ} (ho : o = some a)
    (h : Follows text S (f a) y) : Follows text S (liftM o >>= f) y := by
  subst ho
  exact h

theorem eq_map {f : β → α} {x : Sliced α} {y : Except PatternError β}
    (h : Follows text (fun a b => a = f b) x y) : Follows text Eq x (do return f (← y)) := by
  cases h with
  | ok h => exact .ok h
  | error h => exact .error h

theorem eq_some {x : Sliced α} {y : Except PatternError α} (h : Follows text Eq x y) :
    x.run = some y := by
  cases h with
  | ok h => exact congrArg (fun a => some (Except.ok a)) h
  | error => rfl

theorem pointsInto {x : Sliced α} {y : Except PatternError β}
    (h : Follows text R x y) {e : PatternError} (he : y = .error e) : e.PointsInto text := by
  cases h with
  | ok => cases he
  | error h =>
    cases he
    exact h

theorem result {x : Sliced α} {y : Except PatternError β}
    (h : Follows text R x y) : Follows text (fun a b => R a b ∧ y = .ok b) x y := by
  cases h with
  | ok h => exact .ok ⟨h, rfl⟩
  | error h => exact .error h

theorem ofExcept {offset : Nat} (hoffset : Inside text offset)
    (x : Except PatternFault α) : Follows text (fun a b => a = b ∧ x = .ok b)
      (.ofExcept (x.mapError (⟨offset, ·⟩))) (x.mapError (⟨offset, ·⟩)) := by
  cases x with
  | ok a => exact .ok ⟨rfl, rfl⟩
  | error fault => exact .error (.inl hoffset)

end Follows

def Cursor.In (text : List Char) (c : Cursor) : Prop :=
  ∃ before, text = before ++ c.rest ∧ byteLength before = c.offset

namespace Cursor.In

variable {text : List Char} {c after : Cursor} {x : Char} {xs : List Char}

theorem from?_eq (h : c.In text) : from? text c.offset = some c.rest :=
  from?_eq_some_iff.mpr h

theorem of_yields (h : c.In text) (hyields : c.Yields after xs) : after.In text := by
  obtain ⟨before, rfl, hoffset⟩ := h
  obtain ⟨cs, hrest, hafter, -⟩ := hyields
  exact ⟨before ++ cs, by rw [hrest, List.append_assoc], by rw [byteLength_append, hoffset, hafter]⟩

theorem inside (h : c.In text) (hrest : c.rest = x :: xs) : Inside text c.offset := by
  obtain ⟨before, rfl, hoffset⟩ := h
  exact ⟨before, x, xs, by rw [hrest], hoffset⟩

theorem next_eq (h : c.In text) :
    Sliced.next text c.offset = some (c.next?.map fun (x, after) => (x, after.offset)) := by
  simp only [Sliced.next, h.from?_eq, Option.bind_eq_bind, Option.bind_some, next?]
  cases c.rest <;> rfl

theorem eat_eq (h : c.In text) (word : List Char) :
    Sliced.eat text word c.offset = some ((c.eat? word).map Cursor.offset) := by
  simp only [Sliced.eat, h.from?_eq, Option.bind_eq_bind, Option.bind_some, eat?]
  split <;> rfl

theorem number_eq (h : c.In text) :
    Sliced.number text c.offset = some (c.number?.map fun (n, after) => (n, after.offset)) := by
  have hdigits : ∀ x ∈ c.rest.takeWhile Char.isDigit, x.isDigit = true :=
    List.all_eq_true.mp List.all_takeWhile
  have hslice := upTo?_append (c.rest.takeWhile Char.isDigit) (c.rest.dropWhile Char.isDigit)
  rw [List.takeWhile_append_dropWhile, byteLength_digits hdigits] at hslice
  simp only [Sliced.number, h.from?_eq, Option.bind_eq_bind, Option.bind_some, hslice, number?]
  cases c.rest.takeWhile Char.isDigit <;> rfl

theorem bounds_eq (h : c.In text) (d : Dialect) : Sliced.bounds text d c.offset =
    some ((Bounds.read? d c).map fun (bounds, after) => (bounds, after.offset)) := by
  have hclose : ∀ {c' : Cursor} (b : Bounds), c'.In text →
      (do return (← Sliced.eat text (Bounds.close d) c'.offset).map (b, ·)) =
        some (((c'.eat? (Bounds.close d)).map (b, ·)).map fun (bounds, after) =>
          (bounds, after.offset)) := by
    intro c' b h'
    rw [h'.eat_eq]
    cases c'.eat? (Bounds.close d) <;> rfl
  unfold Sliced.bounds Bounds.read?
  rw [h.number_eq]
  cases hm : c.number? with
  | none => rfl
  | some found =>
    obtain ⟨m, c₁⟩ := found
    have h₁ := h.of_yields (yields_number? hm)
    simp only [Option.map_some, Option.bind_eq_bind, Option.bind_some, h₁.eat_eq]
    cases hcomma : c₁.eat? [','] with
    | none => exact hclose _ h₁
    | some c₂ =>
      have h₂ := h₁.of_yields (yields_eat? hcomma)
      simp only [Option.map_some, h₂.number_eq]
      cases hn : c₂.number? with
      | none => exact hclose _ h₂
      | some found =>
        obtain ⟨n, c₃⟩ := found
        exact hclose _ (h₂.of_yields (yields_number? hn))

theorem endsExpression_eq (h : c.In text) :
    Sliced.endsExpression text c.offset = some (Token.endsExpression c) := by
  rw [Sliced.endsExpression, h.from?_eq]
  rfl

theorem tokenKind_eq (h : c.In text) :
    Sliced.tokenKind text c.offset = some (Bracket.tokenKind? c) := by
  rw [Sliced.tokenKind, h.from?_eq]
  rfl

theorem hyphen_eq (h : c.In text) :
    Sliced.hyphen text c.offset = some (Bracket.hyphen? c).isSome := by
  simp only [Sliced.hyphen, h.from?_eq, Bracket.hyphen?, Option.bind_eq_bind, Option.bind_some]
  rcases c.rest with _ | ⟨x, xs⟩
  · rfl
  by_cases hx : x = '-'
  · subst hx
    cases xs with
    | nil => rfl
    | cons y xs =>
      have hlong : 1 < byteLength ('-' :: y :: xs) :=
        Nat.add_lt_add_left (Nat.add_pos_left y.utf8Size_pos _) 1
      have hslice : from? ('-' :: y :: xs) 1 = some (y :: xs) := from?_append ['-'] (y :: xs)
      rw [hslice]
      by_cases hy : y = ']'
      · subst hy
        simp [hlong, List.isPrefixOf]
      · simp [hlong, hy, Ne.symm hy, List.isPrefixOf]
  · split
    · rename_i heq
      simp [List.isPrefixOf, Ne.symm hx] at heq
    · split
      · rename_i heq
        cases heq
        exact absurd rfl hx
      · rfl

end Cursor.In

/-- What is read by offset is what is read by cursor, and the place behind it is the same. -/
inductive Lands (text : List Char) {α : Type} : α × Nat → α × Cursor → Prop
  | mk (a : α) {c : Cursor} (h : c.In text) : Lands text (a, c.offset) (a, c)

namespace Sliced

variable {text : List Char} {d : Dialect} {c : Cursor} {offset : Nat} {x : Char}

theorem interval_follows (h : c.In text) (hoffset : Inside text offset) :
    Follows text (Lands text) (interval text d offset c.offset)
      ((Token.readInterval d c).mapError (⟨offset, ·⟩)) := by
  unfold interval Token.readInterval
  refine .lift (h.bounds_eq d) ?_
  cases hbounds : Bounds.read? d c with
  | none =>
    cases d with
    | basic => exact .error (.inl hoffset)
    | extended => exact .ok (Lands.mk _ h)
  | some found =>
    obtain ⟨bounds, after⟩ := found
    dsimp only [Option.map_some]
    cases bounds.repetition? with
    | none => exact .error (.inl hoffset)
    | some times => exact .ok (Lands.mk _ (h.of_yields (Bounds.yields_read? hbounds)))

theorem escape_follows (h : c.In text) (hoffset : Inside text offset) :
    Follows text (Lands text) (escape text d offset c.offset)
      ((Token.readEscape d c).mapError (⟨offset, ·⟩)) := by
  unfold escape Token.readEscape
  refine .lift h.next_eq ?_
  cases hnext : c.next? with
  | none => exact .error (.inl hoffset)
  | some found =>
    obtain ⟨x, after⟩ := found
    have hafter := h.of_yields (Cursor.yields_next? hnext)
    dsimp only [Option.map_some]
    cases d with
    | extended => exact .ok (Lands.mk _ hafter)
    | basic =>
      split
      case h_3 => exact interval_follows hafter hoffset
      case h_7 =>
        rename_i x _ _ _ _ _ _ _ _
        have hother : Token.readBasicOperator? x after = none := by
          unfold Token.readBasicOperator?
          split <;> simp_all
        simp only [hother]
        exact .ok (Lands.mk _ hafter)
      all_goals exact .ok (Lands.mk _ hafter)

theorem token_follows (h : c.In text) (hoffset : Inside text offset) :
    Follows text (Lands text) (token text d x offset c.offset)
      ((Token.read d x c).mapError (⟨offset, ·⟩)) := by
  unfold token
  split
  case h_1 => exact escape_follows h hoffset
  case h_6 =>
    exact .lift h.endsExpression_eq (.ok (Lands.mk _ h))
  case h_10 => exact interval_follows h hoffset
  case h_14 =>
    have hread : Token.read d x c = .ok (.char x, c) := by
      unfold Token.read
      split
      case h_6 =>
        cases d with
        | basic => simp_all
        | extended =>
          have hother : Token.readExtendedOperator? x c = none := by
            unfold Token.readExtendedOperator?
            split <;> simp_all
          simp only [hother]
          rfl
      all_goals contradiction
    rw [hread]
    exact .ok (Lands.mk _ h)
  all_goals exact .ok (Lands.mk _ h)

section

variable {opened : Nat} {k : Char}

theorem body_follows (h : c.In text) (hk : Bracket.tokenKind? c = some k) :
    Follows text (Lands text) (body text k c.offset) (Bracket.readBody k c) := by
  obtain ⟨cs, hrest, hsize⟩ := Bracket.exists_of_tokenKind? hk
  have hskip : from? c.rest 2 = some cs := by
    have hslice := from?_append ['[', k] cs
    simp only [byteLength, hsize] at hslice
    rw [hrest]
    exact hslice
  unfold body
  refine .lift h.from?_eq (.lift hskip ?_)
  cases hsplit : Cursor.splitAt? k ']' cs with
  | none =>
    have hread : Bracket.readBody k c = .error ⟨c.offset, .badBracketToken⟩ := by
      simp [Bracket.readBody, Cursor.until?, hrest, hsplit]
    rw [hread]
    exact .error (.inl (h.inside hrest))
  | some found =>
    obtain ⟨inner, rest⟩ := found
    have hread : Bracket.readBody k c =
        .ok (inner, ⟨rest, c.offset + (2 + byteLength inner + 2)⟩) := by
      have hclose : ']'.utf8Size = 1 := rfl
      simp [Bracket.readBody, Cursor.until?, hrest, hsplit, hsize, hclose, Nat.add_assoc]
    have hslice : upTo? cs (byteLength inner) = some inner := by
      rw [Cursor.eq_append_of_splitAt? hsplit]
      exact upTo?_append _ _
    have hafter := h.of_yields (Bracket.yields_readBody hk hread)
    rw [hread]
    exact .lift hslice (.ok (Lands.mk _ hafter))

theorem char_follows (h : c.In text) (hopened : Inside text opened) :
    Follows text (Lands text) (char text opened c.offset) (Bracket.readChar opened c) := by
  unfold char Bracket.readChar
  refine .lift h.next_eq ?_
  cases hnext : c.next? with
  | none => exact .error (.inl hopened)
  | some found => exact .ok (Lands.mk _ (h.of_yields (Cursor.yields_next? hnext)))

theorem inside_of_tokenKind? (h : c.In text) (hk : Bracket.tokenKind? c = some k) :
    Inside text c.offset :=
  have ⟨_, hrest, _⟩ := Bracket.exists_of_tokenKind? hk
  h.inside hrest

theorem element_follows (h : c.In text) (hopened : Inside text opened) :
    Follows text (Lands text) (element text opened c.offset) (Bracket.readElement opened c) := by
  unfold element Bracket.readElement
  refine .lift h.tokenKind_eq ?_
  cases hk : Bracket.tokenKind? c with
  | none =>
    refine (char_follows h hopened).bind ?_
    rintro _ _ ⟨x, hafter⟩
    exact .ok (Lands.mk _ hafter)
  | some k =>
    have hinside := inside_of_tokenKind? h hk
    refine (body_follows h hk).bind ?_
    rintro _ _ ⟨body, hafter⟩
    dsimp only
    split
    · cases CharClass.ofName? (String.ofList body) with
      | none => exact .error (.inl hinside)
      | some cls => exact .ok (Lands.mk _ hafter)
    · unfold Bracket.symbol
      cases CollatingSymbol.resolve? body with
      | none => exact .error (.inl hinside)
      | some x => exact .ok (Lands.mk _ hafter)

theorem rangeEnd_follows (h : c.In text) (hopened : Inside text opened) :
    Follows text (Lands text) (rangeEnd text opened c.offset) (Bracket.readRangeEnd opened c) := by
  unfold rangeEnd Bracket.readRangeEnd
  refine .lift h.tokenKind_eq ?_
  cases hk : Bracket.tokenKind? c with
  | none => exact char_follows h hopened
  | some k =>
    have hinside := inside_of_tokenKind? h hk
    by_cases hdot : k = '.'
    · subst hdot
      refine (body_follows h hk).bind ?_
      rintro _ _ ⟨body, hafter⟩
      unfold Bracket.symbol
      dsimp only
      cases CollatingSymbol.resolve? body with
      | none => exact .error (.inl hinside)
      | some x => exact .ok (Lands.mk _ hafter)
    · dsimp only
      rw [if_neg (by simpa using hdot)]
      split
      · contradiction
      · simp_all
      · exact .error (.inl hinside)

theorem item_follows (h : c.In text) (hinside : Inside text c.offset)
    (hopened : Inside text opened) :
    Follows text (Lands text) (item text opened c.offset) (Bracket.readItem opened c) := by
  unfold item Bracket.readItem
  refine (element_follows h hopened).bind ?_
  rintro _ _ ⟨e, hafter⟩
  rename_i after
  cases e with
  | cls k | equivalence x => exact .ok (Lands.mk _ hafter)
  | char lo =>
    refine .lift hafter.hyphen_eq ?_
    dsimp only
    cases hhyphen : Bracket.hyphen? after with
    | none => exact .ok (Lands.mk _ hafter)
    | some behind =>
      have hoffset : behind.offset = after.offset + 1 := by
        unfold Bracket.hyphen? at hhyphen
        split at hhyphen
        · split at hhyphen
          · cases hhyphen
          · cases hhyphen
            rfl
        · cases hhyphen
      have hbehind := hafter.of_yields (Bracket.yields_hyphen? hhyphen)
      rw [← hoffset]
      refine (rangeEnd_follows hbehind hopened).bind ?_
      rintro _ _ ⟨hi, hlast⟩
      dsimp only
      split
      · exact .error (.inl hinside)
      · exact .ok (Lands.mk _ hlast)

theorem items_follows (h : c.In text) (hopened : Inside text opened) (steps : Nat) (first : Bool) :
    Follows text (Lands text) (items text opened steps first c.offset)
      (Bracket.readItems opened steps first c) := by
  induction steps generalizing first c with
  | zero => exact .error (.inl hopened)
  | succ steps ih =>
    unfold items Bracket.readItems
    refine .lift h.next_eq ?_
    cases hnext : c.next? with
    | none => exact .error (.inl hopened)
    | some found =>
      obtain ⟨x, after⟩ := found
      have hinside := h.inside (Cursor.next?_eq_some hnext).1
      dsimp only [Option.map_some]
      split
      · exact .ok (Lands.mk _ (h.of_yields (Cursor.yields_next? hnext)))
      · refine (item_follows h hinside hopened).bind ?_
        rintro _ _ ⟨i, hitem⟩
        refine (ih hitem false).bind ?_
        rintro _ _ ⟨is, hlast⟩
        exact .ok (Lands.mk _ hlast)

theorem bracket_follows (h : c.In text) (hopened : Inside text opened)
    (hoffset : c.offset = opened + 1) :
    Follows text (Lands text) (bracket text opened) (Bracket.read opened c) := by
  have hstart : ((c.eat? ['^']).getD c).In text := by
    cases heat : c.eat? ['^'] with
    | none => exact h
    | some start => exact h.of_yields (Cursor.yields_eat? heat)
  have hplace : ((c.eat? ['^']).map Cursor.offset).getD c.offset =
      ((c.eat? ['^']).getD c).offset := by
    cases c.eat? ['^'] <;> rfl
  unfold bracket Bracket.read
  rw [← hoffset]
  refine .lift (h.eat_eq ['^']) ?_
  dsimp only
  rw [hplace, Option.isSome_map]
  refine .lift hstart.from?_eq ((items_follows hstart hopened _ true).bind ?_)
  rintro _ _ ⟨is, hafter⟩
  exact .ok (Lands.mk _ hafter)

end

end Sliced

end PosixRegex
