import PosixRegex.Proofs.Ascii
import PosixRegex.Proofs.Pattern.Scopes

namespace PosixRegex

namespace BracketItem

def chars : BracketItem → List Char
  | char c | equivalence c => [c]
  | range lo hi => [lo, hi]
  | cls _ => []

end BracketItem

namespace Leaf

def chars : Leaf → List Char
  | char c => [c]
  | bracket b => b.items.flatMap (·.chars)
  | any | backRef _ => []

end Leaf

namespace Cursor

variable {c mid after : Cursor} {xs ys : List Char} {x y : Char}

/-- The text from `c` up to `after` has been read. It contains the characters `xs`, unless they are
ASCII. -/
def Yields (c after : Cursor) (xs : List Char) : Prop :=
  ∃ cs, c.rest = cs ++ after.rest ∧ after.offset = c.offset + byteLength cs ∧
    ∀ x ∈ xs, x ∈ cs ∨ x.toNat < 128

theorem yields_refl (c : Cursor) : c.Yields c [] :=
  ⟨[], rfl, rfl, fun _ hx => nomatch hx⟩

theorem Yields.trans (h : c.Yields mid xs) (h' : mid.Yields after ys) :
    c.Yields after (xs ++ ys) := by
  obtain ⟨cs, hrest, hoffset, hxs⟩ := h
  obtain ⟨ds, hrest', hoffset', hys⟩ := h'
  refine ⟨cs ++ ds, by rw [hrest, hrest', List.append_assoc], ?_, fun x hx => ?_⟩
  · rw [hoffset', hoffset, byteLength_append, Nat.add_assoc]
  · rw [List.mem_append]
    rcases List.mem_append.mp hx with hx | hx
    · exact (hxs x hx).imp_left Or.inl
    · exact (hys x hx).imp_left Or.inr

theorem Yields.mono (h : c.Yields after ys) (hsub : ∀ x ∈ xs, x ∈ ys ∨ x.toNat < 128) :
    c.Yields after xs := by
  obtain ⟨cs, hrest, hoffset, hys⟩ := h
  exact ⟨cs, hrest, hoffset, fun x hx => (hsub x hx).elim (hys x) Or.inr⟩

theorem Yields.of_subset (h : c.Yields after ys) (hsub : xs ⊆ ys) : c.Yields after xs :=
  h.mono fun _ hx => Or.inl (hsub hx)

theorem Yields.nil (h : c.Yields after ys) : c.Yields after [] :=
  h.of_subset (List.nil_subset _)

theorem Yields.length_le (h : c.Yields after xs) : after.rest.length ≤ c.rest.length := by
  obtain ⟨cs, hrest, -⟩ := h
  rw [hrest, List.length_append]
  exact Nat.le_add_left _ _

theorem Yields.offset_le (h : c.Yields after xs) : c.offset ≤ after.offset := by
  obtain ⟨cs, -, hoffset, -⟩ := h
  rw [hoffset]
  exact Nat.le_add_right _ _

theorem Yields.ascii (h : c.Yields after xs) (hc : Ascii c.rest) : Ascii xs ∧ Ascii after.rest := by
  obtain ⟨cs, hrest, -, hxs⟩ := h
  rw [hrest] at hc
  exact ⟨fun x hx => (hxs x hx).elim (fun hmem => hc x (List.mem_append_left _ hmem)) id,
    fun x hx => hc x (List.mem_append_right _ hx)⟩

theorem next?_eq_some (h : c.next? = some (x, after)) :
    c.rest = x :: after.rest ∧ after.offset = c.offset + x.utf8Size := by
  unfold next? at h
  split at h
  · cases h
  · rename_i y ys hrest
    cases h
    exact ⟨hrest, rfl⟩

theorem yields_next? (h : c.next? = some (x, after)) : c.Yields after [x] := by
  obtain ⟨hrest, hoffset⟩ := next?_eq_some h
  refine ⟨[x], hrest, ?_, fun z hz => Or.inl hz⟩
  simpa [byteLength] using hoffset

theorem yields_eat? {word : List Char} (h : c.eat? word = some after) : c.Yields after [] := by
  unfold eat? at h
  split at h
  · rename_i hword
    cases h
    obtain ⟨tail, htail⟩ := List.isPrefixOf_iff_prefix.mp hword
    exact ⟨word, by simp [← htail], rfl, fun _ hx => nomatch hx⟩
  · cases h

theorem byteLength_digits {cs : List Char} (h : ∀ x ∈ cs, x.isDigit = true) :
    byteLength cs = cs.length := by
  induction cs with
  | nil => rfl
  | cons x cs ih =>
    obtain ⟨hx, hcs⟩ := List.forall_mem_cons.mp h
    have hsize : x.utf8Size = 1 :=
      of_forall_code (P := fun x => x.utf8Size = 1) (by decide) (CharClass.toNat_lt_of_isDigit hx)
    rw [byteLength, hsize, ih hcs, List.length_cons, Nat.add_comm]

theorem yields_number? {n : Nat} (h : c.number? = some (n, after)) : c.Yields after [] := by
  unfold number? at h
  split at h
  · cases h
  · cases h
    have hdigits : ∀ x ∈ c.rest.takeWhile Char.isDigit, x.isDigit = true :=
      List.all_eq_true.mp List.all_takeWhile
    exact ⟨c.rest.takeWhile Char.isDigit, List.takeWhile_append_dropWhile.symm,
      by rw [byteLength_digits hdigits], fun _ hx => nomatch hx⟩

theorem eq_append_of_splitAt? {cs body rest : List Char} (h : splitAt? x y cs = some (body, rest)) :
    cs = body ++ x :: y :: rest := by
  fun_induction splitAt? x y cs generalizing body with
  | case1 a b cs hab =>
    obtain ⟨rfl, rfl⟩ := hab
    cases h
    rfl
  | case2 a b cs _ ih =>
    obtain ⟨⟨body', rest'⟩, hsplit, heq⟩ := Option.map_eq_some_iff.mp h
    cases heq
    rw [ih hsplit]
    rfl
  | case3 => cases h

theorem yields_until? {body : List Char} (h : c.until? x y = some (body, after)) :
    c.Yields after body := by
  obtain ⟨⟨body', rest⟩, hsplit, heq⟩ := Option.map_eq_some_iff.mp h
  cases heq
  refine ⟨body ++ [x, y], ?_, ?_, fun z hz => Or.inl (List.mem_append_left _ hz)⟩
  · simpa using eq_append_of_splitAt? hsplit
  · simp [byteLength, Nat.add_assoc]

end Cursor

open Cursor

variable {d : Dialect} {c after : Cursor}

theorem Bounds.yields_read? {bounds : Bounds} (h : read? d c = some (bounds, after)) :
    c.Yields after [] := by
  obtain ⟨⟨m, c₁⟩, hm, h⟩ := Option.bind_eq_some_iff.mp h
  have hclose : ∀ {c₂ : Cursor} {b : Bounds}, c.Yields c₂ [] →
      (c₂.eat? (close d)).map (fun c => (b, c)) = some (bounds, after) → c.Yields after [] := by
    intro c₂ b h₂ h
    obtain ⟨c₃, heat, heq⟩ := Option.map_eq_some_iff.mp h
    cases heq
    exact h₂.trans (yields_eat? heat)
  simp only at h
  split at h
  · exact hclose (yields_number? hm) h
  · rename_i c₂ hcomma
    have h₂ : c.Yields c₂ [] := (yields_number? hm).trans (yields_eat? hcomma)
    split at h
    · exact hclose h₂ h
    · rename_i n c₃ hn
      exact hclose (h₂.trans (yields_number? hn)) h

namespace Token

variable {token : Token} {x : Char}

/-- The item that a token stands for. A star or a caret can be a character. -/
def leaf? : Token → Option Leaf
  | char c => some (.char c)
  | any => some .any
  | backRef g => some (.backRef g)
  | star => some (.char '*')
  | caret => some (.char '^')
  | _ => none

def chars (token : Token) : List Char := token.leaf?.toList.flatMap Leaf.chars

theorem yields_readInterval (h : readInterval d c = .ok (token, after)) :
    c.Yields after token.chars := by
  unfold readInterval at h
  split at h
  · rename_i hbounds
    split at h
    · cases h
      exact Bounds.yields_read? hbounds
    · cases h
  · split at h
    · cases h
    · cases h
      refine (yields_refl _).mono fun y hy => Or.inr ?_
      obtain rfl := List.mem_singleton.mp hy
      decide

theorem chars_ofEscape (x : Char) : (ofEscape x).chars ⊆ [x] := by
  unfold ofEscape
  split
  · exact List.nil_subset _
  · split
    iterate 4 exact List.nil_subset _
    exact List.Subset.refl _

theorem yields_readBasicOperator? {r : Except PatternFault (Token × Cursor)}
    (h : readBasicOperator? x c = some r) (hr : r = .ok (token, after)) :
    c.Yields after token.chars := by
  unfold readBasicOperator? at h
  split at h
  case h_3 =>
    cases h
    exact yields_readInterval hr
  case h_7 => cases h
  all_goals
    cases h
    cases hr
    exact yields_refl _

theorem yields_readExtendedOperator? {r : Except PatternFault (Token × Cursor)}
    (h : readExtendedOperator? x c = some r) (hr : r = .ok (token, after)) :
    c.Yields after token.chars := by
  unfold readExtendedOperator? at h
  split at h
  case h_4 =>
    cases h
    exact yields_readInterval hr
  case h_8 => cases h
  all_goals
    cases h
    cases hr
    exact yields_refl _

theorem yields_readEscape (h : readEscape d c = .ok (token, after)) :
    c.Yields after token.chars := by
  unfold readEscape at h
  split at h
  · cases h
  · rename_i x c₁ hnext
    have h₁ := yields_next? hnext
    have hescape : token = ofEscape x → after = c₁ → c.Yields after token.chars := by
      rintro rfl rfl
      exact h₁.of_subset (chars_ofEscape x)
    cases d with
    | basic =>
      simp only at h
      cases hop : readBasicOperator? x c₁ with
      | some r =>
        rw [hop] at h
        exact (h₁.trans (yields_readBasicOperator? hop h)).of_subset
          (List.subset_append_right _ _)
      | none =>
        rw [hop] at h
        cases h
        exact hescape rfl rfl
    | extended =>
      cases h
      exact hescape rfl rfl

theorem exists_yields_of_read (h : read d x c = .ok (token, after)) :
    ∃ xs, c.Yields after xs ∧ token.chars ⊆ x :: xs := by
  have hbehind : c.Yields after token.chars → ∃ xs, c.Yields after xs ∧ token.chars ⊆ x :: xs :=
    fun h => ⟨token.chars, h, List.subset_cons_self x token.chars⟩
  have hplain : token.chars ⊆ [x] → after = c →
      ∃ xs, c.Yields after xs ∧ token.chars ⊆ x :: xs := by
    rintro hsub rfl
    exact ⟨[], Cursor.yields_refl after, hsub⟩
  unfold read at h
  split at h
  · exact hbehind (yields_readEscape h)
  iterate 2
    · cases h
      exact hplain (List.nil_subset _) rfl
  iterate 2
    · cases h
      exact hplain (List.Subset.refl _) rfl
  · cases d with
    | basic =>
      cases h
      refine hplain ?_ rfl
      split
      · exact List.nil_subset _
      · exact List.Subset.refl _
    | extended =>
      simp only at h
      cases hop : readExtendedOperator? x c with
      | some r =>
        rw [hop] at h
        exact hbehind (yields_readExtendedOperator? hop h)
      | none =>
        rw [hop] at h
        cases h
        exact hplain (List.Subset.refl _) rfl

theorem yields_read {start : Cursor} (hx : start.next? = some (x, c))
    (h : read d x c = .ok (token, after)) : start.Yields after token.chars := by
  obtain ⟨xs, hxs, hsub⟩ := exists_yields_of_read h
  exact ((yields_next? hx).trans hxs).of_subset hsub

end Token

namespace Bracket

variable {opened offset : Nat} {k x : Char}

theorem exists_of_tokenKind? (hk : tokenKind? c = some k) :
    ∃ cs, c.rest = '[' :: k :: cs ∧ k.utf8Size = 1 := by
  unfold tokenKind? at hk
  split at hk
  · rename_i k' cs hrest
    split at hk
    · rename_i hkind
      obtain rfl := Option.some.inj hk
      simp only [Bool.or_eq_true, beq_iff_eq] at hkind
      exact ⟨cs, hrest, by rcases hkind with (rfl | rfl) | rfl <;> rfl⟩
    · cases hk
  · cases hk

theorem yields_readBody {body : List Char} (hk : tokenKind? c = some k)
    (h : readBody k c = .ok (body, after)) : c.Yields after body := by
  obtain ⟨cs, hrest, hk⟩ := exists_of_tokenKind? hk
  have hskip : c.Yields ⟨cs, c.offset + 2⟩ [] :=
    ⟨['[', k], hrest, by simp [byteLength, hk, show '['.utf8Size = 1 from rfl],
      fun _ hx => nomatch hx⟩
  unfold readBody at h
  rw [hrest] at h
  split at h
  · cases h
  · rename_i found hfound
    cases h
    exact hskip.trans (yields_until? hfound)

theorem toNat_of_lookup {name : String} (h : CollatingSymbol.names.lookup name = some x) :
    x.toNat < 128 := by
  have hall : ∀ entry ∈ CollatingSymbol.names, entry.2.toNat < 128 := by decide
  obtain ⟨before, after, hnames, -⟩ := List.lookup_eq_some_iff.mp h
  exact hall (name, x) (hnames ▸ List.mem_append_right _ List.mem_cons_self)

theorem mem_of_symbol {body : List Char} (h : symbol offset body = .ok x) :
    x ∈ body ∨ x.toNat < 128 := by
  unfold symbol at h
  split at h
  · cases h
  · rename_i y hy
    cases h
    unfold CollatingSymbol.resolve? at hy
    split at hy
    · obtain rfl := Option.some.inj hy
      exact Or.inl List.mem_cons_self
    · exact Or.inr (toNat_of_lookup hy)

theorem yields_readChar (h : readChar opened c = .ok (x, after)) : c.Yields after [x] := by
  unfold readChar at h
  split at h
  · cases h
  · rename_i hnext
    cases h
    exact yields_next? hnext

def Element.chars : Element → List Char
  | .char c | .equivalence c => [c]
  | .cls _ => []

theorem yields_symbol {body : List Char} (h : c.Yields after body)
    (hx : symbol offset body = .ok x) : c.Yields after [x] :=
  h.mono fun _ hy => List.mem_singleton.mp hy ▸ mem_of_symbol hx

theorem yields_readElement {e : Element} (h : readElement opened c = .ok (e, after)) :
    c.Yields after e.chars := by
  unfold readElement at h
  split at h
  · obtain ⟨⟨y, c₁⟩, hy, h⟩ := exists_of_bind_eq_ok h
    cases h
    exact yields_readChar hy
  · rename_i k hk
    obtain ⟨⟨body, c₁⟩, hbody, h⟩ := exists_of_bind_eq_ok h
    have h₁ := yields_readBody hk hbody
    simp only at h
    split at h
    · split at h
      · cases h
      · cases h
        exact h₁.nil
    · obtain ⟨y, hy, h⟩ := exists_of_bind_eq_ok h
      cases h
      split <;> exact yields_symbol h₁ hy

theorem yields_readRangeEnd (h : readRangeEnd opened c = .ok (x, after)) : c.Yields after [x] := by
  unfold readRangeEnd at h
  split at h
  · exact yields_readChar h
  · rename_i hk
    obtain ⟨⟨body, c₁⟩, hbody, h⟩ := exists_of_bind_eq_ok h
    obtain ⟨y, hy, h⟩ := exists_of_bind_eq_ok h
    cases h
    exact yields_symbol (yields_readBody hk hbody) hy
  · cases h

theorem yields_hyphen? (h : hyphen? c = some after) : c.Yields after [] := by
  unfold hyphen? at h
  split at h
  · rename_i y ys hrest
    split at h
    · cases h
    · cases h
      exact ⟨['-'], hrest, rfl, fun _ hx => nomatch hx⟩
  · cases h

theorem yields_readItem {i : BracketItem} (h : readItem opened c = .ok (i, after)) :
    c.Yields after i.chars := by
  unfold readItem at h
  obtain ⟨⟨e, c₁⟩, he, h⟩ := exists_of_bind_eq_ok h
  have h₁ := yields_readElement he
  cases e with
  | cls k | equivalence y =>
    cases h
    exact h₁
  | char lo =>
    simp only at h
    split at h
    · cases h
      exact h₁
    · rename_i c₂ hhyphen
      obtain ⟨⟨hi, c₃⟩, hend, h⟩ := exists_of_bind_eq_ok h
      simp only at h
      split at h
      · cases h
      · cases h
        exact (h₁.trans (yields_hyphen? hhyphen)).trans (yields_readRangeEnd hend)

theorem yields_readItems {steps : Nat} {first : Bool} {is : List BracketItem}
    (h : readItems opened steps first c = .ok (is, after)) :
    c.Yields after (is.flatMap (·.chars)) := by
  induction steps generalizing first c is with
  | zero => cases h
  | succ steps ih =>
    unfold readItems at h
    split at h
    · cases h
    · rename_i y c₁ hnext
      split at h
      · cases h
        exact (yields_next? hnext).nil
      · obtain ⟨⟨i, c₂⟩, hitem, h⟩ := exists_of_bind_eq_ok h
        obtain ⟨⟨is', c₃⟩, hitems, h⟩ := exists_of_bind_eq_ok h
        cases h
        exact (yields_readItem hitem).trans (ih hitems)

theorem yields_read {b : Bracket} (h : read opened c = .ok (b, after)) :
    c.Yields after (Leaf.chars (.bracket b)) := by
  unfold read at h
  obtain ⟨⟨is, c₁⟩, hitems, h⟩ := exists_of_bind_eq_ok h
  cases h
  have hbody := yields_readItems hitems
  cases heat : c.eat? ['^'] with
  | none => rwa [heat] at hbody
  | some start =>
    rw [heat] at hbody
    exact (yields_eat? heat).trans hbody

end Bracket

end PosixRegex
