import PosixRegex.Pattern.Reader
import PosixRegex.Proofs.Pattern.Proper

namespace PosixRegex

theorem exists_of_bind_eq_ok {ε α β : Type} {x : Except ε α} {f : α → Except ε β} {b : β}
    (h : x >>= f = .ok b) : ∃ a, x = .ok a ∧ f a = .ok b := by
  cases x with
  | error e => cases h
  | ok a => exact ⟨a, rfl, h⟩

theorem ok_of_mapError {ε ε' α : Type} {x : Except ε α} {f : ε → ε'} {a : α}
    (h : x.mapError f = .ok a) : x = .ok a := by
  cases x with
  | error e => cases h
  | ok b => exact congrArg Except.ok (Except.ok.inj h)

theorem cases_of_map_eq {ε α β γ : Type} {x : Except ε α} {y : Except ε β} {f : α → γ} {g : β → γ}
    (h : x.map f = y.map g) : (∃ e, x = .error e ∧ y = .error e) ∨
      ∃ a b, x = .ok a ∧ y = .ok b ∧ f a = g b := by
  cases x with
  | error e =>
    cases y with
    | error e' =>
      cases h
      exact Or.inl ⟨e, rfl, rfl⟩
    | ok b => cases h
  | ok a =>
    cases y with
    | error e => cases h
    | ok b => exact Or.inr ⟨a, b, rfl, rfl, Except.ok.inj h⟩

theorem cases_of_mapError_map_eq {ε ε' α β γ : Type} {x : Except ε α} {y : Except ε' β} {f : α → γ}
    {g : β → γ} {blame : ε → ε'} (h : (x.map f).mapError blame = y.map g) :
    (∃ e, x = .error e ∧ y = .error (blame e)) ∨ ∃ a b, x = .ok a ∧ y = .ok b ∧ f a = g b := by
  have hmap : (x.mapError blame).map f = y.map g := by
    rw [← h]
    cases x <;> rfl
  rcases cases_of_map_eq hmap with ⟨e, hx, hy⟩ | ⟨a, b, hx, hy, heq⟩
  · cases x with
    | error e' =>
      cases hx
      exact Or.inl ⟨e', rfl, hy⟩
    | ok a => cases hx
  · exact Or.inr ⟨a, b, ok_of_mapError hx, hy, heq⟩

namespace Pattern

variable {around : List Nat} {n : Nat}

def ProperBack (around : List Nat) (n : Nat) : Pattern → Prop
  | done => True
  | leaf what times rest => what.Proper around ∧ times.Ordered ∧ rest.ProperBack around n
  | assert _ rest | bar rest => rest.ProperBack around n
  | group body times rest =>
    body.Proper ((n + rest.groupCount) :: around) (n + rest.groupCount + 1) ∧ times.Ordered ∧
      rest.ProperBack around n

theorem proper_reverseOnto (p k : Pattern) : (p.reverseOnto k).Proper around n ↔
    p.ProperBack around n ∧ k.Proper around (n + p.groupCount) := by
  induction p generalizing k with
  | done => simp [reverseOnto, ProperBack, groupCount]
  | leaf what times rest ih =>
    rw [reverseOnto, ih]
    constructor
    · rintro ⟨hrest, hwhat, htimes, hk⟩
      exact ⟨⟨hwhat, htimes, hrest⟩, hk⟩
    · rintro ⟨⟨hwhat, htimes, hrest⟩, hk⟩
      exact ⟨hrest, hwhat, htimes, hk⟩
  | assert what rest ih | bar rest ih =>
    rw [reverseOnto, ih]
    rfl
  | group body times rest _ ih =>
    have hnext : n + (group body times rest).groupCount =
        n + rest.groupCount + 1 + body.groupCount := by
      simp only [groupCount]
      omega
    rw [reverseOnto, ih, hnext]
    constructor
    · rintro ⟨hrest, hbody, htimes, hk⟩
      exact ⟨⟨hbody, htimes, hrest⟩, hk⟩
    · rintro ⟨⟨hbody, htimes, hrest⟩, hk⟩
      exact ⟨hrest, hbody, htimes, hk⟩

theorem proper_reverse {p : Pattern} : p.reverse.Proper around n ↔ p.ProperBack around n := by
  rw [reverse, proper_reverseOnto]
  exact and_iff_left trivial

theorem Proper.mono {p : Pattern} {around' : List Nat} (h : p.Proper around n)
    (hsub : around' ⊆ around) : p.Proper around' n := by
  induction p generalizing around around' n with
  | done => trivial
  | leaf what times rest ih =>
    refine ⟨?_, h.2.1, ih h.2.2 hsub⟩
    cases what with
    | backRef g => exact fun hg => h.1 (hsub hg)
    | char | any => trivial
    | bracket b => exact h.1
  | assert what rest ih => exact ih h hsub
  | group body times rest ihbody ih =>
    exact ⟨ihbody h.1 (List.cons_subset_cons n hsub), h.2.1, ih h.2.2 hsub⟩
  | bar rest ih => exact ih h hsub

end Pattern

namespace Repetition

theorem Ordered.stack {times later : Repetition} (h : times.Ordered) (h' : later.Ordered) :
    (times.stack later).Ordered := by
  unfold Repetition.stack
  split
  · exact h'
  · exact h

end Repetition

theorem Bounds.ordered {b : Bounds} {times : Repetition} (h : b.repetition? = some times) :
    times.Ordered := by
  unfold repetition? at h
  split at h
  · split at h
    · cases h
      exact fun _ hn => nomatch hn
    · cases h
  · split at h
    · rename_i n _ hle
      cases h
      rintro _ ⟨⟩
      exact hle.1
    · cases h

namespace Token

variable {d : Dialect} {c after : Cursor} {token : Token} {x : Char}

def Ordered : Token → Prop
  | quantifier times => times.Ordered
  | _ => True

theorem ordered_plus : Repetition.Ordered .plus := fun _ hn => nomatch hn

theorem ordered_optional : Repetition.Ordered .optional := by
  rintro _ ⟨⟩
  exact Nat.zero_le 1

section

variable {P : Token → Prop}
  (hplain : ∀ token, (∀ times, token ≠ .quantifier times) → token ≠ .bracket → P token)
  (hplus : P (.quantifier .plus)) (hoptional : P (.quantifier .optional))
  (hbounds : ∀ (b : Bounds) times, b.repetition? = some times → P (.quantifier times))

include hplain

theorem of_ofEscape : P (ofEscape x) := by
  refine hplain _ (fun times => ?_) ?_
  all_goals
    unfold ofEscape
    repeat' split
  all_goals nofun

include hbounds

theorem of_readInterval (h : readInterval d c = .ok (token, after)) : P token := by
  unfold readInterval at h
  split at h
  · split at h
    · rename_i hb
      cases h
      exact hbounds _ _ hb
    · cases h
  · split at h <;> cases h
    exact hplain _ nofun nofun

include hplus hoptional

theorem of_readBasicOperator? {r : Except PatternFault (Token × Cursor)}
    (h : readBasicOperator? x c = some r) (hr : r = .ok (token, after)) : P token := by
  unfold readBasicOperator? at h
  split at h
  case h_3 =>
    cases h
    exact of_readInterval hplain hbounds hr
  case h_7 => cases h
  all_goals
    cases h
    cases hr
  case h_5 => exact hplus
  case h_6 => exact hoptional
  all_goals exact hplain _ nofun nofun

theorem of_readExtendedOperator? {r : Except PatternFault (Token × Cursor)}
    (h : readExtendedOperator? x c = some r) (hr : r = .ok (token, after)) : P token := by
  unfold readExtendedOperator? at h
  split at h
  case h_4 =>
    cases h
    exact of_readInterval hplain hbounds hr
  case h_8 => cases h
  all_goals
    cases h
    cases hr
  case h_2 => exact hplus
  case h_3 => exact hoptional
  all_goals exact hplain _ nofun nofun

theorem of_readEscape (h : readEscape d c = .ok (token, after)) : P token := by
  unfold readEscape at h
  split at h
  · cases h
  · rename_i x after' _
    cases d with
    | basic =>
      simp only at h
      cases hop : readBasicOperator? x after' with
      | some r =>
        rw [hop] at h
        exact of_readBasicOperator? hplain hplus hoptional hbounds hop h
      | none =>
        rw [hop] at h
        cases h
        exact of_ofEscape hplain
    | extended =>
      cases h
      exact of_ofEscape hplain

end

/-- What holds of all tokens but quantifiers, and of the quantifiers that can be written, holds of
every token that is read. -/
theorem of_read {P : Token → Prop}
    (hplain : ∀ token, (∀ times, token ≠ .quantifier times) → P token)
    (hplus : P (.quantifier .plus)) (hoptional : P (.quantifier .optional))
    (hbounds : ∀ (b : Bounds) times, b.repetition? = some times → P (.quantifier times))
    (h : read d x c = .ok (token, after)) : P token := by
  have hsolid : ∀ token, (∀ times, token ≠ .quantifier times) → token ≠ .bracket → P token :=
    fun token htoken _ => hplain token htoken
  unfold read at h
  split at h
  · exact of_readEscape hsolid hplus hoptional hbounds h
  iterate 4
    · cases h
      exact hplain _ nofun
  · cases d with
    | basic =>
      cases h
      split <;> exact hplain _ nofun
    | extended =>
      simp only at h
      cases hop : readExtendedOperator? x c with
      | some r =>
        rw [hop] at h
        exact of_readExtendedOperator? hsolid hplus hoptional hbounds hop h
      | none =>
        rw [hop] at h
        cases h
        exact hplain _ nofun

theorem eq_of_read_bracket (h : read d x c = .ok (.bracket, after)) : x = '[' ∧ after = c := by
  have hplain : ∀ token : Token, (∀ times, token ≠ .quantifier times) → token ≠ .bracket →
      token ≠ .bracket := fun _ _ htoken => htoken
  unfold read at h
  split at h
  · exact absurd rfl (of_readEscape hplain nofun nofun (fun _ _ _ => nofun) h)
  · cases h
    exact ⟨rfl, rfl⟩
  iterate 3
    · cases h
  · cases d with
    | basic =>
      simp only at h
      split at h <;> cases h
    | extended =>
      simp only at h
      cases hop : readExtendedOperator? x c with
      | some r =>
        rw [hop] at h
        exact absurd rfl
          (of_readExtendedOperator? hplain nofun nofun (fun _ _ _ => nofun) hop h)
      | none =>
        rw [hop] at h
        cases h

theorem ordered_of_read (h : read d x c = .ok (token, after)) : token.Ordered := by
  refine of_read (fun token htoken => ?_) ordered_plus ordered_optional
    (fun _ _ => Bounds.ordered) h
  cases token with
  | quantifier times => exact absurd rfl (htoken times)
  | _ => trivial

end Token

namespace Bracket

variable {opened : Nat} {c after : Cursor}

theorem ascending_of_readItem {i : BracketItem} (h : readItem opened c = .ok (i, after))
    {lo hi : Char} (hrange : i = .range lo hi) : lo.toNat ≤ hi.toNat := by
  subst hrange
  unfold readItem at h
  obtain ⟨⟨e, c'⟩, -, h⟩ := exists_of_bind_eq_ok h
  cases e with
  | cls k => cases h
  | equivalence x => cases h
  | char lo' =>
    simp only at h
    split at h
    · cases h
    · obtain ⟨⟨hi', c''⟩, -, h⟩ := exists_of_bind_eq_ok h
      simp only at h
      split at h
      · cases h
      · rename_i hlt
        cases h
        exact Nat.le_of_not_lt hlt

theorem ascending_of_readItems {steps : Nat} {first : Bool} {is : List BracketItem}
    (h : readItems opened steps first c = .ok (is, after)) {lo hi : Char}
    (hmem : BracketItem.range lo hi ∈ is) : lo.toNat ≤ hi.toNat := by
  induction steps generalizing first c is with
  | zero => cases h
  | succ steps ih =>
    unfold readItems at h
    split at h
    · cases h
    · split at h
      · cases h
        cases hmem
      · obtain ⟨⟨i, c'⟩, hitem, h⟩ := exists_of_bind_eq_ok h
        obtain ⟨⟨is', c''⟩, hitems, h⟩ := exists_of_bind_eq_ok h
        cases h
        rcases List.mem_cons.mp hmem with hrange | hmem
        · exact ascending_of_readItem hitem hrange.symm
        · exact ih hitems hmem

theorem ascending_of_read {b : Bracket} (h : read opened c = .ok (b, after)) : b.Ascending := by
  unfold read at h
  obtain ⟨⟨is, c'⟩, hitems, h⟩ := exists_of_bind_eq_ok h
  cases h
  exact fun lo hi hmem => ascending_of_readItems hitems hmem

end Bracket

/-- The groups in `gs` have been read, and none of them is open. -/
def Apart (groups : Nat) (around gs : List Nat) : Prop := ∀ g ∈ gs, g ∉ around ∧ g ≤ groups

namespace Apart

variable {groups groups' g : Nat} {around around' gs hs : List Nat}

theorem mono (h : Apart groups around gs) (hle : groups ≤ groups') : Apart groups' around gs :=
  fun g hg => ⟨(h g hg).1, Nat.le_trans (h g hg).2 hle⟩

theorem of_subset (h : Apart groups around gs) (hsub : around' ⊆ around) :
    Apart groups around' gs :=
  fun g hg => ⟨fun hmem => (h g hg).1 (hsub hmem), (h g hg).2⟩

theorem open_next (h : Apart groups around gs) :
    Apart (groups + 1) ((groups + 1) :: around) gs := by
  intro g hg
  obtain ⟨hnot, hle⟩ := h g hg
  refine ⟨fun hmem => ?_, by omega⟩
  rcases List.mem_cons.mp hmem with rfl | hmem
  · omega
  · exact hnot hmem

theorem append (h : Apart groups around gs) (h' : Apart groups around hs) :
    Apart groups around (gs ++ hs) := by
  intro g hg
  rcases List.mem_append.mp hg with hg | hg
  · exact h g hg
  · exact h' g hg

theorem addNew (h : Apart groups around gs) (hg : g ∉ around ∧ g ≤ groups) :
    Apart groups around (addNew gs g) := by
  unfold PosixRegex.addNew
  split
  · exact h
  · exact h.append fun i hi => List.mem_singleton.mp hi ▸ hg

theorem foldl_addNew (h : Apart groups around gs) (h' : Apart groups around hs) :
    Apart groups around (hs.foldl PosixRegex.addNew gs) := by
  induction hs generalizing gs with
  | nil => exact h
  | cons g hs ih =>
    exact ih (h.addNew (h' g List.mem_cons_self)) fun i hi => h' i (List.mem_cons_of_mem g hi)

end Apart

structure Scope.Holds (s : Scope) (groups : Nat) (around : List Nat) : Prop where
  items : s.items.ProperBack around (s.group + 1)
  before : Apart groups around s.closedBefore
  branches : Apart groups around s.closedInBranches

/-- The scopes, innermost first, are in order, and `next` is the number that a group opened now
has. -/
def Nested (groups : Nat) : (next : Nat) → List Scope → Prop
  | next, [] => next = 0
  | next, s :: outer => s.Holds groups (s.group :: outer.map Scope.group) ∧
      s.group + 1 + s.items.groupCount = next ∧ Nested groups s.group outer

theorem Scope.Holds.mono {s : Scope} {groups groups' : Nat} {around : List Nat}
    (h : s.Holds groups around) (hle : groups ≤ groups') : s.Holds groups' around :=
  ⟨h.items, h.before.mono hle, h.branches.mono hle⟩

theorem Nested.mono {groups groups' next : Nat} {scopes : List Scope}
    (h : Nested groups next scopes) (hle : groups ≤ groups') : Nested groups' next scopes := by
  induction scopes generalizing next with
  | nil => exact h
  | cons s outer ih => exact ⟨h.1.mono hle, h.2.1, ih h.2.2⟩

theorem Nested.lt_of_mem {groups next g : Nat} {scopes : List Scope}
    (h : Nested groups next scopes) (hg : g ∈ scopes.map Scope.group) : g < next := by
  induction scopes generalizing next with
  | nil => cases hg
  | cons s outer ih =>
    obtain ⟨-, hnext, houter⟩ := h
    rcases List.mem_cons.mp hg with rfl | hg
    · omega
    · have := ih houter hg
      omega

namespace Reader

variable {d : Dialect} {limits : CompileLimits} {r r' : Reader}

theorem exists_push_of_char {c : Char} (hr : r.char d limits c = .ok r') :
    ∃ size run, r' = r.push (.leaf (.char c) .once) size run := by
  unfold Reader.char at hr
  obtain ⟨-, -, hr⟩ := exists_of_bind_eq_ok hr
  split at hr <;> cases hr <;> exact ⟨_, _, rfl⟩

theorem eq_push_of_leaf {what : Leaf} (hr : r.leaf d what = .ok r') :
    r' = r.push (.leaf what .once) 1 0 := by
  unfold Reader.leaf at hr
  obtain ⟨-, -, hr⟩ := exists_of_bind_eq_ok hr
  cases hr
  rfl

theorem eq_of_openGroup {offset : Nat} (hr : r.openGroup d offset = .ok r') :
    r' = { r with
      scope := .empty (r.groups + 1) offset r.closed
      outer := r.scope :: r.outer
      groups := r.groups + 1
      size := r.size + 1
      run := 0 } := by
  unfold openGroup at hr
  obtain ⟨-, -, hr⟩ := exists_of_bind_eq_ok hr
  split at hr
  · cases hr
  · cases hr
    rfl

theorem lt_maxGroup_of_openGroup {offset : Nat} (hr : r.openGroup d offset = .ok r') :
    r.groups < maxGroup := by
  unfold openGroup at hr
  obtain ⟨-, -, hr⟩ := exists_of_bind_eq_ok hr
  split at hr
  · cases hr
  · rename_i hroom
    exact Nat.lt_of_not_le hroom

theorem exists_of_closeGroup (hr : r.closeGroup = .ok r') : ∃ up outer, r.outer = up :: outer ∧
    r' = { r with
      scope := { up with items := .group r.scope.items.reverse .once up.items }
      outer
      closed := (r.scope.closedInBranches ++ [r.scope.group]).foldl addNew r.closed
      size := r.size + chainEnd r.scope + 1
      run := 0 } := by
  unfold closeGroup at hr
  split at hr
  · cases hr
  · rename_i up outer houter
    cases hr
    exact ⟨up, outer, houter, rfl⟩

theorem exists_push_of_quantify {times : Repetition} (hr : r.quantify d times = .ok r') :
    ∃ times' size, r' = r.push (Pattern.setTimes times') size 0 := by
  unfold Reader.quantify at hr
  split at hr
  · cases hr
  · cases hr
  · cases hr
    exact ⟨_, _, rfl⟩
  · split at hr
    · cases hr
    · cases hr
      exact ⟨_, _, rfl⟩

/-- What becomes of a reader that takes a token. A star or a caret can be a character. -/
inductive Moves (d : Dialect) (limits : CompileLimits) (offset : Nat) (r : Reader) :
    Token → Reader → Prop
  | char {c : Char} {r' : Reader} (hr : r.char d limits c = .ok r') :
    Moves d limits offset r (.char c) r'
  | starChar {r' : Reader} (hr : r.char d limits '*' = .ok r') : Moves d limits offset r .star r'
  | caretChar {r' : Reader} (hr : r.char d limits '^' = .ok r') : Moves d limits offset r .caret r'
  | any {r' : Reader} (hr : r.leaf d .any = .ok r') : Moves d limits offset r .any r'
  | bracket : Moves d limits offset r .bracket r
  | backRef {g : Nat} {r' : Reader} (hg : g ∈ r.closed) (hr : r.leaf d (.backRef g) = .ok r') :
    Moves d limits offset r (.backRef g) r'
  | word {edge : WordEdge} : Moves d limits offset r (.word edge) (r.assert (.word edge))
  | lineStart : Moves d limits offset r .caret (r.assert .lineStart)
  | dollar : Moves d limits offset r .dollar r.dollar
  | star {r' : Reader} (hr : r.quantify d .star = .ok r') : Moves d limits offset r .star r'
  | quantifier {times : Repetition} {r' : Reader} (hr : r.quantify d times = .ok r') :
    Moves d limits offset r (.quantifier times) r'
  | openGroup {r' : Reader} (hr : r.openGroup d offset = .ok r') :
    Moves d limits offset r .openGroup r'
  | closeGroup {r' : Reader} (hr : r.closeGroup = .ok r') : Moves d limits offset r .closeGroup r'
  | bar : Moves d limits offset r .bar r.bar

theorem moves_of_step {offset : Nat} {token : Token} (hr : r.step d limits offset token = .ok r') :
    r.Moves d limits offset token r' := by
  cases token with
  | char c => exact .char hr
  | any => exact .any hr
  | bracket =>
    obtain ⟨-, -, hr⟩ := exists_of_bind_eq_ok (x := r.checkDollar d) (f := fun _ => .ok r) hr
    cases hr
    exact .bracket
  | backRef g =>
    change r.backRef d g = .ok r' at hr
    unfold Reader.backRef at hr
    split at hr
    · rename_i hg
      exact .backRef (List.contains_iff_mem.mp hg) hr
    · cases hr
  | word edge =>
    cases hr
    exact .word
  | star =>
    change r.star d limits = .ok r' at hr
    unfold Reader.star at hr
    split at hr
    · exact .starChar hr
    · exact .starChar hr
    · exact .star hr
  | caret =>
    change r.caret d limits = .ok r' at hr
    unfold Reader.caret at hr
    split at hr
    · cases hr
      exact .lineStart
    · cases hr
      exact .lineStart
    · exact .caretChar hr
  | dollar =>
    cases hr
    exact .dollar
  | quantifier times => exact .quantifier hr
  | openGroup => exact .openGroup hr
  | closeGroup => exact .closeGroup hr
  | bar =>
    cases hr
    exact .bar

def around (r : Reader) : List Nat := r.scope.group :: r.outer.map Scope.group

/-- The scopes are in order, and only groups that are not open may be referred to. -/
structure Holds (r : Reader) : Prop where
  nested : Nested r.groups (r.groups + 1) (r.scope :: r.outer)
  closed : Apart r.groups r.around r.closed

theorem start_holds : start.Holds :=
  ⟨⟨⟨trivial, fun _ hg => (nomatch hg), fun _ hg => (nomatch hg)⟩, rfl, rfl⟩,
    fun _ hg => (nomatch hg)⟩

theorem Holds.push (h : r.Holds) (item : Pattern → Pattern)
    (hitem : (item r.scope.items).ProperBack r.around (r.scope.group + 1))
    (hcount : (item r.scope.items).groupCount = r.scope.items.groupCount) (size run : Nat) :
    (r.push item size run).Holds where
  nested :=
    have ⟨hscope, hnext, houter⟩ := h.nested
    ⟨⟨hitem, hscope.before, hscope.branches⟩,
      (congrArg (r.scope.group + 1 + ·) hcount).trans hnext, houter⟩
  closed := h.closed

theorem Holds.items (h : r.Holds) : r.scope.items.ProperBack r.around (r.scope.group + 1) :=
  h.nested.1.items

theorem ordered_once : Repetition.Ordered .once := by
  rintro _ ⟨⟩
  exact Nat.le_refl 1

theorem ordered_star : Repetition.Ordered .star := fun _ hn => nomatch hn

theorem Holds.push_leaf (h : r.Holds) (what : Leaf) (hwhat : what.Proper r.around)
    (size run : Nat) : (r.push (.leaf what .once) size run).Holds :=
  h.push (.leaf what .once) ⟨hwhat, ordered_once, h.items⟩ rfl size run

theorem Holds.assert (h : r.Holds) (what : Assertion) : (r.assert what).Holds :=
  h.push (.assert what) h.items rfl 1 0

theorem Holds.char (h : r.Holds) {c : Char} (hr : r.char d limits c = .ok r') : r'.Holds := by
  obtain ⟨size, run, rfl⟩ := exists_push_of_char hr
  exact h.push_leaf (.char c) trivial size run

theorem Holds.leaf (h : r.Holds) (what : Leaf) (hwhat : what.Proper r.around)
    (hr : r.leaf d what = .ok r') : r'.Holds := by
  obtain rfl := eq_push_of_leaf hr
  exact h.push_leaf what hwhat _ _

theorem properBack_setTimes {p : Pattern} {around : List Nat} {n : Nat} {times : Repetition}
    (h : p.ProperBack around n) (htimes : times.Ordered) :
    (p.setTimes times).ProperBack around n := by
  cases p with
  | done | assert | bar => exact h
  | leaf what _ rest | group body _ rest => exact ⟨h.1, htimes, h.2.2⟩

theorem groupCount_setTimes (p : Pattern) (times : Repetition) :
    (p.setTimes times).groupCount = p.groupCount := by
  cases p <;> rfl

theorem ordered_of_operand {p : Pattern} {around : List Nat} {n : Nat} {times : Repetition}
    (h : p.ProperBack around n) (hp : p.operand = .repeated times) : times.Ordered := by
  cases p with
  | done | assert | bar => cases hp
  | leaf what _ rest | group body _ rest =>
    simp only [Pattern.operand] at hp
    split at hp
    · cases hp
    · cases hp
      exact h.2.1

theorem Holds.quantify (h : r.Holds) {times : Repetition} (htimes : times.Ordered)
    (hr : r.quantify d times = .ok r') : r'.Holds := by
  unfold Reader.quantify at hr
  split at hr
  · cases hr
  · cases hr
  · cases hr
    exact h.push _ (properBack_setTimes h.items htimes) (groupCount_setTimes _ _) _ _
  · rename_i current hoperand
    split at hr
    · cases hr
    · cases hr
      have hstack := (ordered_of_operand h.items hoperand).stack htimes
      exact h.push _ (properBack_setTimes h.items hstack) (groupCount_setTimes _ _) _ _

theorem Holds.dollar (h : r.Holds) : r.dollar.Holds :=
  have h' := h.assert .lineEnd
  ⟨⟨⟨h'.nested.1.items, h'.nested.1.before, h'.nested.1.branches⟩, h'.nested.2⟩, h'.closed⟩

theorem Holds.openGroup (h : r.Holds) {offset : Nat} (hr : r.openGroup d offset = .ok r') :
    r'.Holds := by
  obtain rfl := eq_of_openGroup hr
  exact ⟨⟨⟨trivial, h.closed.open_next, fun _ hg => (nomatch hg)⟩, rfl,
    h.nested.mono (Nat.le_succ r.groups)⟩, h.closed.open_next⟩

theorem Holds.closeGroup (h : r.Holds) (hr : r.closeGroup = .ok r') : r'.Holds := by
  obtain ⟨⟨hitems, hbefore, hbranches⟩, hcount, houter⟩ := h.nested
  obtain ⟨up, outer, hup, rfl⟩ := exists_of_closeGroup hr
  have haround : r.around = r.scope.group :: up.group :: outer.map Scope.group := by
    rw [around, hup]
    rfl
  rw [hup] at houter hitems hbranches
  obtain ⟨hscope, hnext, hrest⟩ := houter
  have hsub : up.group :: outer.map Scope.group ⊆ r.around := by
    rw [haround]
    exact List.subset_cons_self _ _
  have houter : Nested r.groups r.scope.group (up :: outer) := ⟨hscope, hnext, hrest⟩
  have hgroup : r.scope.group ∉ up.group :: outer.map Scope.group :=
    fun hmem => Nat.lt_irrefl _ (houter.lt_of_mem hmem)
  refine ⟨⟨⟨⟨?_, ordered_once, hscope.items⟩, hscope.before, hscope.branches⟩, ?_, hrest⟩, ?_⟩
  · rw [hnext]
    exact Pattern.proper_reverse.mpr hitems
  · simp only [Pattern.groupCount, Pattern.groupCount_reverse]
    omega
  · refine (h.closed.of_subset hsub).foldl_addNew (Apart.append ?_ ?_)
    · exact hbranches.of_subset (List.subset_cons_self _ _)
    · intro g hg
      obtain rfl := List.mem_singleton.mp hg
      exact ⟨hgroup, by omega⟩

theorem Holds.bar (h : r.Holds) : r.bar.Holds :=
  have ⟨hscope, hnext, houter⟩ := h.nested
  ⟨⟨⟨hscope.items, hscope.before, hscope.branches.foldl_addNew h.closed⟩, hnext, houter⟩,
    hscope.before⟩

theorem Holds.step (h : r.Holds) {offset : Nat} {token : Token} (htoken : token.Ordered)
    (hr : r.step d limits offset token = .ok r') : r'.Holds := by
  cases moves_of_step hr with
  | char hr | starChar hr | caretChar hr => exact h.char hr
  | any hr => exact h.leaf .any trivial hr
  | bracket => exact h
  | backRef hg hr => exact h.leaf (.backRef _) (h.closed _ hg).1 hr
  | word | lineStart => exact h.assert _
  | dollar => exact h.dollar
  | star hr => exact h.quantify ordered_star hr
  | quantifier hr => exact h.quantify htoken hr
  | openGroup hr => exact h.openGroup hr
  | closeGroup hr => exact h.closeGroup hr
  | bar => exact h.bar

theorem Holds.readToken (h : r.Holds) {x : Char} {offset : Nat} {c after : Cursor}
    (hr : r.readToken d limits x offset c = .ok (r', after)) : r'.Holds := by
  unfold Reader.readToken at hr
  obtain ⟨⟨token, c'⟩, htoken, hr⟩ := exists_of_bind_eq_ok hr
  obtain ⟨r₁, hstep, hr⟩ := exists_of_bind_eq_ok hr
  have htoken := ok_of_mapError htoken
  have h₁ := h.step (Token.ordered_of_read htoken) (ok_of_mapError hstep)
  split at hr
  · obtain ⟨⟨b, c''⟩, hb, hr⟩ := exists_of_bind_eq_ok hr
    cases hr
    exact h₁.push_leaf (.bracket b) (Bracket.ascending_of_read hb) _ _
  · cases hr
    exact h₁

theorem Holds.finish (h : r.Holds) {offset : Nat} {p : Pattern}
    (hp : r.finish limits offset = .ok p) : p.Proper [0] 1 := by
  unfold Reader.finish at hp
  split at hp
  · cases hp
  · rename_i houter
    have hgroup := h.nested.2.2
    rw [houter] at hgroup
    split at hp
    · cases hp
    · cases hp
      have hproper := Pattern.proper_reverse.mpr h.items
      rw [around, houter, show r.scope.group = 0 from hgroup] at hproper
      exact hproper

theorem Holds.readAll (h : r.Holds) {steps : Nat} {c : Cursor} {p : Pattern}
    (hp : readAll d limits steps r c = .ok p) : p.Proper [0] 1 := by
  induction steps generalizing r c with
  | zero => exact h.finish hp
  | succ steps ih =>
    unfold Reader.readAll at hp
    split at hp
    · exact h.finish hp
    · obtain ⟨⟨r', c'⟩, hr, hp⟩ := exists_of_bind_eq_ok hp
      simp only at hp
      split at hp
      · cases hp
      · exact ih (h.readToken hr) hp

end Reader

theorem Pattern.proper_whole_of_read {d : Dialect} {limits : CompileLimits} {text : List Char}
    {p : Pattern} (h : Pattern.read d limits text = .ok p) : p.Proper [0] 1 :=
  Reader.start_holds.readAll h

theorem Pattern.proper_of_read {d : Dialect} {limits : CompileLimits} {text : List Char}
    {p : Pattern} (h : Pattern.read d limits text = .ok p) : p.Proper [] 1 :=
  (proper_whole_of_read h).mono (List.nil_subset _)

end PosixRegex
