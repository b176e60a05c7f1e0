import PosixRegex.Proofs.Pattern.Scopes

namespace PosixRegex

namespace Bracket

/-- A character of a bracket expression. One with a meaning of its own is written as a collating
symbol. -/
def printChar (c : Char) : List Char :=
  if c ∈ [']', '[', '-', '^'] then ['[', '.', c, '.', ']'] else [c]

def printItem : BracketItem → List Char
  | .char c => printChar c
  | .range lo hi => printChar lo ++ '-' :: printChar hi
  | .cls k => '[' :: ':' :: k.name.toList ++ [':', ']']
  | .equivalence c => ['[', '=', c, '=', ']']

def print (b : Bracket) : List Char :=
  '[' :: (if b.negated then ['^'] else []) ++ b.items.flatMap printItem ++ [']']

end Bracket

namespace Leaf

def specials : List Char := ['\\', '[', '.', '*', '^', '$', '+', '?', '\x7b', '(', ')', '|']

def print : Leaf → List Char
  | char c => if c ∈ specials then ['\\', c] else [c]
  | any => ['.']
  | bracket b => b.print
  | backRef g => ['\\', g.digitChar]

/-- A bracket expression is not empty, and a reference has a single digit. -/
def Writable : Leaf → Prop
  | bracket b => b.items ≠ []
  | backRef g => 1 ≤ g ∧ g ≤ 9
  | _ => True

end Leaf

def Assertion.print : Assertion → List Char
  | .lineStart => ['^']
  | .lineEnd => ['$']
  | .word .start => ['\\', '<']
  | .word .finish => ['\\', '>']
  | .word .either => ['\\', 'b']
  | .word .neither => ['\\', 'B']

namespace Pattern

def print : Pattern → List Char
  | done => []
  | leaf what times rest => what.print ++ (times.suffix.toList ++ rest.print)
  | assert what rest => what.print ++ rest.print
  | group body times rest => '(' :: (body.print ++ ')' :: (times.suffix.toList ++ rest.print))
  | bar rest => '|' :: rest.print

def Writable : Pattern → Prop
  | done => True
  | leaf what _ rest => what.Writable ∧ rest.Writable
  | assert _ rest | bar rest => rest.Writable
  | group body _ rest => body.Writable ∧ rest.Writable

end Pattern

namespace Cursor

variable {rest : List Char} {offset : Nat}

theorem splitAt?_single {a b : Char} (h : a ≠ b) (c : Char) :
    splitAt? a b (c :: a :: b :: rest) = some ([c], rest) := by
  simp [splitAt?, h]

theorem splitAt?_append {a b : Char} (h : a ≠ b) {body : List Char} (hb : b ∉ body) :
    splitAt? a b (body ++ a :: b :: rest) = some (body, rest) := by
  induction body with
  | nil => simp [splitAt?]
  | cons x body ih =>
    rw [List.mem_cons, not_or] at hb
    obtain ⟨y, ys, hy, hne⟩ : ∃ y ys, body ++ a :: b :: rest = y :: ys ∧ y ≠ b := by
      cases body with
      | nil => exact ⟨a, _, rfl, h⟩
      | cons y body => exact ⟨y, _, rfl, fun he => hb.2 (he ▸ List.mem_cons_self)⟩
    have ih := ih hb.2
    rw [List.cons_append, hy]
    rw [hy] at ih
    simp [splitAt?, hne, ih]

theorem number?_append {ds : List Char} (hne : ds ≠ []) (hds : ∀ c ∈ ds, c.isDigit = true)
    (offset : Nat) (hrest : ∀ c cs, rest = c :: cs → c.isDigit = false) :
    number? ⟨ds ++ rest, offset⟩ =
      some (Nat.ofDigitChars 10 ds 0, ⟨rest, offset + ds.length⟩) := by
  have htake : rest.takeWhile Char.isDigit = [] ∧ rest.dropWhile Char.isDigit = rest := by
    cases rest with
    | nil => exact ⟨rfl, rfl⟩
    | cons c cs => simp [hrest c cs rfl]
  have hvalue : ds.foldl (fun n d => n * 10 + (d.toNat - '0'.toNat)) 0 =
      Nat.ofDigitChars 10 ds 0 := by
    rw [Nat.ofDigitChars_eq_foldl]
    simp only [Nat.mul_comm]
  unfold number?
  simp only [List.takeWhile_append_of_pos hds, List.dropWhile_append_of_pos hds, htake,
    List.append_nil, hvalue]

theorem number?_toDigits (n offset : Nat) (hrest : ∀ c cs, rest = c :: cs → c.isDigit = false) :
    ∃ offset', number? ⟨Nat.toDigits 10 n ++ rest, offset⟩ = some (n, ⟨rest, offset'⟩) := by
  have hdigits : ∀ c ∈ Nat.toDigits 10 n, c.isDigit = true :=
    fun c hc => Nat.isDigit_of_mem_toDigits (by decide) (by decide) hc
  rw [number?_append Nat.toDigits_ne_nil hdigits offset hrest, Nat.ofDigitChars_ten_toDigits]
  exact ⟨_, rfl⟩

theorem eat?_append (word rest : List Char) (offset : Nat) :
    eat? ⟨word ++ rest, offset⟩ word = some ⟨rest, offset + byteLength word⟩ := by
  simp [eat?]

theorem eat?_singleton_of_ne {c x : Char} (h : x ≠ c) : eat? ⟨x :: rest, offset⟩ [c] = none := by
  simp [eat?, Ne.symm h]

end Cursor

namespace Bracket

variable {opened offset : Nat} {rest : List Char} {c : Char}

theorem tokenKind?_of_ne {x : Char} (h : x ≠ '[') : tokenKind? ⟨x :: rest, offset⟩ = none := by
  unfold tokenKind?
  split
  · rename_i heq
    cases heq
    exact absurd rfl h
  · rfl

theorem printChar_cases (c : Char) : printChar c = ['[', '.', c, '.', ']'] ∨
    printChar c = [c] ∧ c ≠ ']' ∧ c ≠ '[' ∧ c ≠ '-' ∧ c ≠ '^' := by
  unfold printChar
  split
  · exact Or.inl rfl
  · rename_i hc
    simpa using hc

theorem readBody_single {k : Char} (hk : k ≠ ']') (c : Char) (rest : List Char) (offset : Nat) :
    ∃ offset', readBody k ⟨'[' :: k :: c :: k :: ']' :: rest, offset⟩ =
      .ok ([c], ⟨rest, offset'⟩) := by
  simp only [readBody, Cursor.until?, List.drop_succ_cons, List.drop_zero,
    Cursor.splitAt?_single hk]
  exact ⟨_, rfl⟩

theorem readBody_append {k : Char} (hk : k ≠ ']') {body : List Char} (hbody : ']' ∉ body)
    (rest : List Char) (offset : Nat) : ∃ offset',
      readBody k ⟨'[' :: k :: (body ++ k :: ']' :: rest), offset⟩ =
      .ok (body, ⟨rest, offset'⟩) := by
  simp only [readBody, Cursor.until?, List.drop_succ_cons, List.drop_zero,
    Cursor.splitAt?_append hk hbody]
  exact ⟨_, rfl⟩

theorem readElement_printChar (opened offset : Nat) (c : Char) (rest : List Char) : ∃ offset',
    readElement opened ⟨printChar c ++ rest, offset⟩ = .ok (.char c, ⟨rest, offset'⟩) := by
  rcases printChar_cases c with hc | ⟨hc, -, hne, -⟩
  · obtain ⟨offset', hbody⟩ := readBody_single (show '.' ≠ ']' by decide) c rest offset
    rw [hc]
    refine ⟨offset', ?_⟩
    simp only [readElement, tokenKind?, List.cons_append, List.nil_append, beq_self_eq_true,
      Bool.or_true, if_true, hbody]
    rfl
  · rw [hc]
    simp only [readElement, List.cons_append, List.nil_append, tokenKind?_of_ne hne]
    exact ⟨_, rfl⟩

theorem readRangeEnd_printChar (opened offset : Nat) (c : Char) (rest : List Char) : ∃ offset',
    readRangeEnd opened ⟨printChar c ++ rest, offset⟩ = .ok (c, ⟨rest, offset'⟩) := by
  rcases printChar_cases c with hc | ⟨hc, -, hne, -⟩
  · obtain ⟨offset', hbody⟩ := readBody_single (show '.' ≠ ']' by decide) c rest offset
    rw [hc]
    refine ⟨offset', ?_⟩
    simp only [readRangeEnd, tokenKind?, List.cons_append, List.nil_append, beq_self_eq_true,
      Bool.or_true, if_true, hbody]
    rfl
  · rw [hc]
    simp only [readRangeEnd, List.cons_append, List.nil_append, tokenKind?_of_ne hne]
    exact ⟨_, rfl⟩

theorem readElement_cls (k : CharClass) : ∃ offset',
    readElement opened ⟨printItem (.cls k) ++ rest, offset⟩ = .ok (.cls k, ⟨rest, offset'⟩) := by
  have hname : ']' ∉ k.name.toList := by
    cases k <;> decide
  obtain ⟨offset', hbody⟩ := readBody_append (show ':' ≠ ']' by decide) hname rest offset
  refine ⟨offset', ?_⟩
  simp only [printItem, List.cons_append, List.append_assoc, List.nil_append, readElement,
    tokenKind?, beq_self_eq_true, Bool.true_or, if_true, hbody, bind, Except.bind,
    String.ofList_toList, CharClass.ofName?_name]
  rfl

theorem readElement_equivalence : ∃ offset',
    readElement opened ⟨printItem (.equivalence c) ++ rest, offset⟩ =
      .ok (.equivalence c, ⟨rest, offset'⟩) := by
  obtain ⟨offset', hbody⟩ := readBody_single (show '=' ≠ ']' by decide) c rest offset
  refine ⟨offset', ?_⟩
  simp only [printItem, readElement, tokenKind?, List.cons_append, List.nil_append,
    beq_self_eq_true, Bool.or_true, Bool.true_or, if_true, hbody]
  rfl

theorem printItem_head (i : BracketItem) : ∃ x xs, printItem i = x :: xs ∧
    x ≠ ']' ∧ x ≠ '-' ∧ x ≠ '^' := by
  have hchar : ∀ c, ∃ x xs, printChar c = x :: xs ∧ x ≠ ']' ∧ x ≠ '-' ∧ x ≠ '^' := by
    intro c
    rcases printChar_cases c with hc | ⟨hc, h₁, -, h₂, h₃⟩
    · exact ⟨_, _, hc, by decide⟩
    · exact ⟨_, _, hc, h₁, h₂, h₃⟩
  cases i with
  | char c => exact hchar c
  | range lo hi =>
    obtain ⟨x, xs, hx, hne⟩ := hchar lo
    exact ⟨x, _, by rw [printItem, hx, List.cons_append], hne⟩
  | cls k => exact ⟨_, _, rfl, by decide⟩
  | equivalence c => exact ⟨_, _, rfl, by decide⟩

theorem hyphen?_of_ne {x : Char} (hx : x ≠ '-') : hyphen? ⟨x :: rest, offset⟩ = none := by
  unfold hyphen?
  split
  · rename_i heq
    cases heq
    exact absurd rfl hx
  · rfl

theorem hyphen?_printChar (offset : Nat) (c : Char) (rest : List Char) : ∃ offset',
    hyphen? ⟨'-' :: (printChar c ++ rest), offset⟩ = some ⟨printChar c ++ rest, offset'⟩ := by
  obtain ⟨x, xs, hx, hne, -⟩ := printItem_head (.char c)
  rw [show printChar c = x :: xs from hx]
  simp only [hyphen?, List.cons_append, beq_iff_eq, if_neg hne]
  exact ⟨_, rfl⟩

theorem readItem_print (i : BracketItem) {x : Char} (hx : x ≠ '-') (opened offset : Nat)
    (rest : List Char) :
    (∃ offset', readItem opened ⟨printItem i ++ x :: rest, offset⟩ =
      .ok (i, ⟨x :: rest, offset'⟩)) ∨
    (∃ e, readItem opened ⟨printItem i ++ x :: rest, offset⟩ = .error e) ∧
      ∃ lo hi, i = .range lo hi ∧ hi.toNat < lo.toNat := by
  unfold readItem
  cases i with
  | char c =>
    obtain ⟨offset', he⟩ := readElement_printChar opened offset c (x :: rest)
    left
    simp only [printItem, he, bind, Except.bind, hyphen?_of_ne hx]
    exact ⟨offset', rfl⟩
  | cls k =>
    obtain ⟨offset', he⟩ := @readElement_cls opened offset (x :: rest) k
    left
    rw [he]
    exact ⟨offset', rfl⟩
  | equivalence c =>
    obtain ⟨offset', he⟩ := @readElement_equivalence opened offset (x :: rest) c
    left
    rw [he]
    exact ⟨offset', rfl⟩
  | range lo hi =>
    obtain ⟨offset₁, he⟩ :=
      readElement_printChar opened offset lo ('-' :: (printChar hi ++ x :: rest))
    obtain ⟨offset₂, hhyphen⟩ := hyphen?_printChar offset₁ hi (x :: rest)
    obtain ⟨offset₃, hend⟩ := readRangeEnd_printChar opened offset₂ hi (x :: rest)
    rw [printItem, List.append_assoc, List.cons_append, he]
    simp only [bind, Except.bind, hhyphen, hend]
    by_cases hlt : Locale.uniqueWeight hi < Locale.uniqueWeight lo
    · rw [if_pos hlt]
      exact Or.inr ⟨⟨_, rfl⟩, lo, hi, rfl, hlt⟩
    · rw [if_neg hlt]
      exact Or.inl ⟨offset₃, rfl⟩

theorem readItems_print {is : List BracketItem} {steps : Nat} {first : Bool}
    (hfirst : is = [] → first = false) (opened offset : Nat) (rest : List Char) :
    (∃ offset', readItems opened steps first ⟨is.flatMap printItem ++ ']' :: rest, offset⟩ =
      .ok (is, ⟨rest, offset'⟩)) ∨
    (∃ e, readItems opened steps first ⟨is.flatMap printItem ++ ']' :: rest, offset⟩ =
      .error e) ∧
      (is.length < steps → ∃ lo hi, .range lo hi ∈ is ∧ hi.toNat < lo.toNat) := by
  induction is generalizing steps first offset with
  | nil =>
    obtain rfl := hfirst rfl
    cases steps with
    | zero => exact Or.inr ⟨⟨_, rfl⟩, fun h => absurd h (Nat.not_lt_zero _)⟩
    | succ steps => exact Or.inl ⟨_, rfl⟩
  | cons i is ih =>
    cases steps with
    | zero => exact Or.inr ⟨⟨_, rfl⟩, fun h => absurd h (Nat.not_lt_zero _)⟩
    | succ steps =>
      obtain ⟨x, xs, hx, hne, -⟩ := printItem_head i
      -- No item starts with a hyphen, so that no character is taken for the start of a range.
      obtain ⟨y, ys, hy, hdash⟩ : ∃ y ys, is.flatMap printItem ++ ']' :: rest = y :: ys ∧
          y ≠ '-' := by
        cases is with
        | nil => exact ⟨_, _, rfl, by decide⟩
        | cons i' is =>
          obtain ⟨y, ys, hy, -, hdash, -⟩ := printItem_head i'
          exact ⟨y, _, by rw [List.flatMap_cons, hy]; rfl, hdash⟩
      have hstep : readItems opened (steps + 1) first
          ⟨printItem i ++ (is.flatMap printItem ++ ']' :: rest), offset⟩ = (do
            let item ← readItem opened
              ⟨printItem i ++ (is.flatMap printItem ++ ']' :: rest), offset⟩
            let items ← readItems opened steps false item.2
            return (item.1 :: items.1, items.2)) := by
        rw [hx, List.cons_append]
        simp only [readItems, Cursor.next?]
        exact if_neg (by simp [hne])
      rw [List.flatMap_cons, List.append_assoc, hstep, hy]
      rcases readItem_print i hdash opened offset ys with ⟨offset₁, hitem⟩ |
        ⟨⟨e, hitem⟩, lo, hi, rfl, hlt⟩
      · rw [hitem]
        rcases @ih steps false (fun _ => rfl) offset₁ with ⟨offset', hitems⟩ |
          ⟨⟨e, hitems⟩, hwhy⟩
        · rw [hy] at hitems
          simp only [bind, Except.bind, hitems]
          exact Or.inl ⟨offset', rfl⟩
        · rw [hy] at hitems
          simp only [bind, Except.bind, hitems]
          refine Or.inr ⟨⟨e, rfl⟩, fun hlength => ?_⟩
          obtain ⟨lo, hi, hmem, hlt⟩ := hwhy (Nat.lt_of_succ_lt_succ hlength)
          exact ⟨lo, hi, List.mem_cons_of_mem i hmem, hlt⟩
      · rw [hitem]
        exact Or.inr ⟨⟨e, rfl⟩, fun _ => ⟨lo, hi, List.mem_cons_self, hlt⟩⟩

theorem length_le_length_flatMap_printItem (is : List BracketItem) :
    is.length ≤ (is.flatMap printItem).length := by
  induction is with
  | nil => exact Nat.zero_le _
  | cons i is ih =>
    obtain ⟨x, xs, hx, -⟩ := printItem_head i
    simp only [List.flatMap_cons, hx, List.cons_append, List.length_cons, List.length_append]
    omega

theorem read_print_or_descending {b : Bracket} {cs : List Char} (hb : b.items ≠ [])
    (hcs : b.print = '[' :: cs) (opened offset : Nat) (rest : List Char) :
    (∃ offset', read opened ⟨cs ++ rest, offset⟩ = .ok (b, ⟨rest, offset'⟩)) ∨
    (∃ e, read opened ⟨cs ++ rest, offset⟩ = .error e) ∧ ¬b.Ascending := by
  obtain ⟨negated, items⟩ := b
  have hitems : ∀ {steps offset}, items.length < steps →
      (∃ offset', readItems opened steps true ⟨items.flatMap printItem ++ ']' :: rest, offset⟩ =
        .ok (items, ⟨rest, offset'⟩)) ∨
      (∃ e, readItems opened steps true ⟨items.flatMap printItem ++ ']' :: rest, offset⟩ =
        .error e) ∧ ¬Bracket.Ascending ⟨negated, items⟩ := by
    intro steps offset hsteps
    refine (readItems_print (fun hnil => absurd hnil hb) opened offset rest).imp_right ?_
    rintro ⟨he, hwhy⟩
    obtain ⟨lo, hi, hmem, hlt⟩ := hwhy hsteps
    exact ⟨he, fun hasc => absurd (hasc lo hi hmem) (Nat.not_le_of_lt hlt)⟩
  have hlength : items.length < (items.flatMap printItem ++ ']' :: rest).length + 1 := by
    have := length_le_length_flatMap_printItem items
    rw [List.length_append]
    omega
  -- A caret in first place is read apart, and no item starts with one.
  have hread : read opened ⟨cs ++ rest, offset⟩ = (do
      let found ← readItems opened ((items.flatMap printItem ++ ']' :: rest).length + 1) true
        ⟨items.flatMap printItem ++ ']' :: rest, if negated then offset + 1 else offset⟩
      return (⟨negated, found.1⟩, found.2)) := by
    unfold read
    cases negated with
    | true =>
      obtain rfl : '^' :: (items.flatMap printItem ++ [']']) = cs := (List.cons.inj hcs).2
      have heat := Cursor.eat?_append ['^'] (items.flatMap printItem ++ [']'] ++ rest) offset
      rw [List.singleton_append] at heat
      rw [List.cons_append, heat, List.append_assoc]
      rfl
    | false =>
      obtain rfl : items.flatMap printItem ++ [']'] = cs := (List.cons.inj hcs).2
      obtain ⟨x, xs, hx, hne⟩ : ∃ x xs, items.flatMap printItem = x :: xs ∧ x ≠ '^' := by
        cases items with
        | nil => exact absurd rfl hb
        | cons i is =>
          obtain ⟨x, xs, hx, -, -, hne⟩ := printItem_head i
          exact ⟨x, _, by rw [List.flatMap_cons, hx]; rfl, hne⟩
      have heat : Cursor.eat? ⟨items.flatMap printItem ++ [']'] ++ rest, offset⟩ ['^'] = none := by
        rw [hx]
        exact Cursor.eat?_singleton_of_ne hne
      rw [heat, List.append_assoc]
      rfl
  rw [hread]
  rcases hitems hlength with ⟨offset', h⟩ | ⟨⟨e, h⟩, hnot⟩
  · rw [h]
    exact Or.inl ⟨offset', rfl⟩
  · rw [h]
    exact Or.inr ⟨⟨e, rfl⟩, hnot⟩

theorem read_print {b b' : Bracket} {after : Cursor} {cs : List Char} (hb : b.items ≠ [])
    (hcs : b.print = '[' :: cs) (h : read opened ⟨cs ++ rest, offset⟩ = .ok (b', after)) :
    b' = b ∧ after.rest = rest := by
  rcases read_print_or_descending hb hcs opened offset rest with ⟨offset', hread⟩ |
    ⟨⟨e, hread⟩, -⟩
  · cases h.symm.trans hread
    exact ⟨rfl, rfl⟩
  · cases h.symm.trans hread

end Bracket

end PosixRegex
