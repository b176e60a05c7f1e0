import PosixRegex.Proofs.Pattern.Passage

namespace PosixRegex

theorem Cursor.splitAt?_append_right {a b : Char} {cs body left : List Char} (rest : List Char)
    (h : splitAt? a b cs = some (body, left)) :
    splitAt? a b (cs ++ rest) = some (body, left ++ rest) := by
  fun_induction splitAt? a b cs generalizing body with
  | case1 x y cs hxy =>
    cases h
    simp only [List.cons_append, splitAt?, if_pos hxy]
  | case2 x y cs hxy ih =>
    obtain ⟨⟨body', left'⟩, hsplit, heq⟩ := Option.map_eq_some_iff.mp h
    cases heq
    have hrest := ih hsplit
    rw [List.cons_append] at hrest
    simp only [List.cons_append, splitAt?, if_neg hxy, hrest, Option.map_some]
  | case3 => cases h

namespace Bracket

variable {cs cs' rest : List Char} {opened opened' offset offset' : Nat}

/-- No two characters of which one is in `cs` and one in `rest` have a meaning together. -/
def Sealed (cs rest : List Char) : Prop :=
  (∀ x ∈ cs.getLast?, x = ']') ∨ ∀ x ∈ rest.head?, x ∉ [':', '=', '.']

theorem Sealed.suffix (h : Sealed cs rest) (hs : cs' <:+ cs) : Sealed cs' rest := by
  obtain ⟨before, rfl⟩ := hs
  refine h.imp_left fun h x hx => h x ?_
  rw [List.getLast?_append, hx]
  rfl

/-- What has been read of `cs` is read of `cs ++ rest` as well, unless something is missing. -/
def Extends {α : Type} (cs rest : List Char) (x x' : Except PatternError (α × Cursor)) : Prop :=
  match x with
  | .ok (a, c) => c.rest <:+ cs ∧ ∃ offset, x' = .ok (a, ⟨c.rest ++ rest, offset⟩)
  | .error e => e.fault = .unmatchedBracket ∨ e.fault = .badBracketToken ∨
    ∃ offset, x' = .error ⟨offset, e.fault⟩

section

variable {α β : Type} {x x' : Except PatternError (α × Cursor)}

theorem extends_of_unmatched {e : PatternError} (he : e.fault = .unmatchedBracket) :
    Extends cs rest (.error e) x' :=
  Or.inl he

theorem extends_fault (at₁ at₂ : Nat) (fault : PatternFault) :
    Extends cs rest (.error ⟨at₁, fault⟩ : Except PatternError (α × Cursor))
      (.error ⟨at₂, fault⟩) :=
  Or.inr (Or.inr ⟨at₂, rfl⟩)

theorem extends_ok (a : α) (hs : cs' <:+ cs) :
    Extends cs rest (.ok (a, ⟨cs', offset⟩)) (.ok (a, ⟨cs' ++ rest, offset'⟩)) :=
  ⟨hs, offset', rfl⟩

theorem Extends.mono (h : Extends cs' rest x x') (hs : cs' <:+ cs) : Extends cs rest x x' := by
  cases x with
  | error e => exact h
  | ok found => exact ⟨h.1.trans hs, h.2⟩

theorem Extends.bind {f f' : α × Cursor → Except PatternError (β × Cursor)}
    (h : Extends cs rest x x')
    (hf : ∀ a cs' offset offset', cs' <:+ cs →
      Extends cs' rest (f (a, ⟨cs', offset⟩)) (f' (a, ⟨cs' ++ rest, offset'⟩))) :
    Extends cs rest (x >>= f) (x' >>= f') := by
  cases x with
  | error e =>
    refine h.imp_right (Or.imp_right ?_)
    rintro ⟨offset, rfl⟩
    exact ⟨offset, rfl⟩
  | ok found =>
    obtain ⟨a, c⟩ := found
    obtain ⟨hs, offset, rfl⟩ := h
    exact (hf a c.rest c.offset offset hs).mono hs

end

theorem tokenKind?_append (hcs : Sealed cs rest) (hne : cs ≠ []) (offset offset' : Nat) :
    tokenKind? ⟨cs ++ rest, offset'⟩ = tokenKind? ⟨cs, offset⟩ := by
  match cs with
  | [] => exact absurd rfl hne
  | [x] =>
    by_cases hx : x = '['
    · subst hx
      obtain hlast | hhead := hcs
      · cases hlast '[' rfl
      · cases rest with
        | nil => rfl
        | cons y ys =>
          have hy := hhead y rfl
          simp only [List.mem_cons, List.not_mem_nil, or_false, not_or] at hy
          simp [tokenKind?, hy]
    · simp [tokenKind?, hx]
  | x :: y :: ys =>
    by_cases hx : x = '['
    · subst hx
      rfl
    · simp [tokenKind?, hx]

theorem extends_readBody (k : Char) :
    Extends ('[' :: k :: cs) rest (readBody k ⟨'[' :: k :: cs, offset⟩)
      (readBody k ⟨'[' :: k :: cs ++ rest, offset'⟩) := by
  cases hsplit : Cursor.splitAt? k ']' cs with
  | none =>
    have hnone : readBody k ⟨'[' :: k :: cs, offset⟩ = .error ⟨offset, .badBracketToken⟩ := by
      simp [readBody, Cursor.until?, hsplit]
    rw [hnone]
    exact Or.inr (Or.inl rfl)
  | some found =>
    obtain ⟨body, left⟩ := found
    have hrest := Cursor.splitAt?_append_right rest hsplit
    simp only [readBody, Cursor.until?, List.cons_append, List.drop_succ_cons, List.drop_zero,
      hsplit, hrest, Option.map_some]
    exact extends_ok body
      ⟨'[' :: k :: (body ++ [k, ']']), by simp [Cursor.eq_append_of_splitAt? hsplit]⟩

theorem extends_readChar :
    Extends cs rest (readChar opened ⟨cs, offset⟩) (readChar opened' ⟨cs ++ rest, offset'⟩) := by
  cases cs with
  | nil => exact extends_of_unmatched rfl
  | cons x cs => exact extends_ok x (List.suffix_cons x cs)

theorem extends_symbol {α : Type} (body : List Char) (f : Char → α) :
    Extends cs rest
      (do let x ← symbol opened body; return (f x, ⟨cs, offset⟩))
      (do let x ← symbol opened' body; return (f x, ⟨cs ++ rest, offset'⟩)) := by
  unfold symbol
  split
  · exact extends_fault _ _ _
  · exact extends_ok _ (List.suffix_refl cs)

theorem extends_readElement (hcs : Sealed cs rest) :
    Extends cs rest (readElement opened ⟨cs, offset⟩)
      (readElement opened' ⟨cs ++ rest, offset'⟩) := by
  by_cases hne : cs = []
  · subst hne
    exact extends_of_unmatched rfl
  · have hkind := tokenKind?_append hcs hne offset offset'
    unfold readElement
    rw [hkind]
    split
    · exact extends_readChar.bind fun x cs offset offset' _ => extends_ok _ (List.suffix_refl cs)
    · rename_i k hk
      obtain ⟨cs, rfl : _ = _ :: _, -⟩ := exists_of_tokenKind? hk
      refine (extends_readBody k).bind fun body cs offset offset' _ => ?_
      simp only
      split
      · split
        · exact extends_fault _ _ _
        · exact extends_ok _ (List.suffix_refl cs)
      · exact extends_symbol body fun x => if k == '=' then Element.equivalence x else .char x

theorem extends_readRangeEnd (hcs : Sealed cs rest) :
    Extends cs rest (readRangeEnd opened ⟨cs, offset⟩)
      (readRangeEnd opened' ⟨cs ++ rest, offset'⟩) := by
  by_cases hne : cs = []
  · subst hne
    exact extends_of_unmatched rfl
  · have hkind := tokenKind?_append hcs hne offset offset'
    unfold readRangeEnd
    rw [hkind]
    split
    · exact extends_readChar
    · rename_i hk
      obtain ⟨cs, rfl : _ = _ :: _, -⟩ := exists_of_tokenKind? hk
      exact (extends_readBody _).bind fun body cs offset offset' _ => extends_symbol body fun x => x
    · exact extends_fault _ _ _

/-- A hyphen at the very end of the text would be the start of a range if more text followed. -/
theorem hyphen?_append (hcs : Sealed cs rest) (hne : cs ≠ []) (hhyphen : cs ≠ ['-'])
    (offset offset' : Nat) :
    hyphen? ⟨cs ++ rest, offset'⟩ =
      (hyphen? ⟨cs, offset⟩).map fun c => ⟨c.rest ++ rest, offset' + 1⟩ := by
  match cs with
  | [] => exact absurd rfl hne
  | [x] =>
    have hx : x ≠ '-' := fun hx => hhyphen (hx ▸ rfl)
    simp [hyphen?, hx]
  | x :: y :: ys =>
    by_cases hx : x = '-'
    · subst hx
      simp only [hyphen?, List.cons_append]
      split <;> rfl
    · simp [hyphen?, hx]

theorem suffix_of_hyphen? {c : Cursor} (h : hyphen? ⟨cs, offset⟩ = some c) : c.rest <:+ cs := by
  unfold hyphen? at h
  split at h
  · rename_i heq
    split at h
    · cases h
    · cases h
      exact ⟨['-'], heq.symm⟩
  · cases h

/-- Whether an item ends here cannot be told if the text ends, or if only a hyphen follows. -/
theorem extends_readItem (hcs : Sealed cs rest) (opened opened' offset offset' : Nat) :
    Extends cs rest (readItem opened ⟨cs, offset⟩) (readItem opened' ⟨cs ++ rest, offset'⟩) ∨
      ∃ i c, readItem opened ⟨cs, offset⟩ = .ok (i, c) ∧ (c.rest = [] ∨ c.rest = ['-']) := by
  have helement : Extends cs rest (readElement opened ⟨cs, offset⟩)
      (readElement opened' ⟨cs ++ rest, offset'⟩) := extends_readElement hcs
  unfold readItem
  cases hx : readElement opened ⟨cs, offset⟩ with
  | error e =>
    left
    rw [hx] at helement
    refine helement.imp_right (Or.imp_right ?_)
    rintro ⟨offset₁, hx'⟩
    rw [hx']
    exact ⟨offset₁, rfl⟩
  | ok found =>
    obtain ⟨e, c⟩ := found
    rw [hx] at helement
    obtain ⟨hs, offset₁, hx'⟩ := helement
    rw [hx']
    cases e with
    | cls k => exact Or.inl ⟨hs, _, rfl⟩
    | equivalence x => exact Or.inl ⟨hs, _, rfl⟩
    | char lo =>
      -- Whether a hyphen makes a range is seen only from the character behind it.
      by_cases hend : c.rest = [] ∨ c.rest = ['-']
      · right
        have hnone : hyphen? c = none := by
          rcases hend with hend | hend <;> simp [hyphen?, hend]
        refine ⟨.char lo, c, ?_, hend⟩
        simp only [bind, Except.bind, hnone]
        rfl
      · left
        rw [not_or] at hend
        have hhyphen := hyphen?_append (hcs.suffix hs) hend.1 hend.2 c.offset offset₁
        simp only [bind, Except.bind, hhyphen]
        cases hh : hyphen? c with
        | none => exact ⟨hs, _, rfl⟩
        | some c₁ =>
          have hs₁ := (suffix_of_hyphen? hh).trans hs
          refine ((extends_readRangeEnd (hcs.suffix hs₁)).bind fun hi cs offset offset' _ => ?_).mono
            hs₁
          simp only
          split
          · exact extends_fault _ _ _
          · exact extends_ok _ (List.suffix_refl cs)

theorem readItems_of_end {c : Cursor} (hc : c.rest = [] ∨ c.rest = ['-']) (steps : Nat) :
    readItems opened steps false c = .error ⟨opened, .unmatchedBracket⟩ := by
  obtain ⟨cs, offset⟩ := c
  rcases hc with rfl | rfl
  · cases steps <;> rfl
  · cases steps with
    | zero => rfl
    | succ steps => cases steps <;> rfl

theorem extends_readItems {steps steps' : Nat} (hsteps : steps ≤ steps') {first : Bool}
    (hcs : Sealed cs rest) :
    Extends cs rest (readItems opened steps first ⟨cs, offset⟩)
      (readItems opened' steps' first ⟨cs ++ rest, offset'⟩) := by
  induction steps generalizing steps' first cs offset offset' with
  | zero => exact extends_of_unmatched rfl
  | succ steps ih =>
    obtain ⟨steps', rfl⟩ : ∃ k, steps' = k + 1 := ⟨steps' - 1, by omega⟩
    cases cs with
    | nil => exact extends_of_unmatched rfl
    | cons x cs =>
      simp only [readItems, Cursor.next?, List.cons_append]
      split
      · exact extends_ok _ (List.suffix_cons x cs)
      · rcases extends_readItem hcs opened opened' offset offset' with hitem | ⟨i, c, hitem, hend⟩
        · refine hitem.bind fun i cs offset offset' hs => ?_
          exact (ih (Nat.le_of_succ_le_succ hsteps) (hcs.suffix hs)).bind
            fun is cs offset offset' _ => extends_ok _ (List.suffix_refl cs)
        · simp only [hitem, bind, Except.bind, readItems_of_end hend]
          exact extends_of_unmatched rfl

theorem extends_read (hcs : Sealed cs rest) (opened opened' offset offset' : Nat) :
    Extends cs rest (read opened ⟨cs, offset⟩) (read opened' ⟨cs ++ rest, offset'⟩) := by
  cases cs with
  | nil => exact extends_of_unmatched rfl
  | cons x cs =>
    have hlength : ∀ cs : List Char, cs.length + 1 ≤ (cs ++ rest).length + 1 := by
      intro cs
      rw [List.length_append]
      omega
    have hs := List.suffix_cons x cs
    unfold read
    by_cases hx : x = '^'
    · subst hx
      refine Extends.mono ?_ hs
      exact (extends_readItems (hlength cs) (hcs.suffix hs)).bind
        fun is cs offset offset' _ => ⟨List.suffix_refl cs, _, rfl⟩
    · have hnone : ∀ cs offset, Cursor.eat? ⟨x :: cs, offset⟩ ['^'] = none := by
        intro cs offset
        simp [Cursor.eat?, Ne.symm hx]
      rw [List.cons_append, hnone, hnone]
      exact (extends_readItems (hlength (x :: cs)) hcs).bind
        fun is cs offset offset' _ => ⟨List.suffix_refl cs, _, rfl⟩

/-- Whether nothing is missing behind a text: all of it is read, or something else is wrong. -/
def Complete (cs : List Char) : Prop :=
  match read 0 ⟨cs, 0⟩ with
  | .ok (_, c) => c.rest = []
  | .error e => e.fault ≠ .unmatchedBracket ∧ e.fault ≠ .badBracketToken

end Bracket

structure BracketText where
  text : List Char
  closed : text.getLast? = some ']'
  complete : Bracket.Complete text

namespace BracketText

def found (b : BracketText) : Except PatternFault Bracket :=
  ((Bracket.read 0 ⟨b.text, 0⟩).map Prod.fst).mapError (·.fault)

/-- A bracket expression is read in the same way whatever follows it and wherever it stands. -/
theorem read_append (b : BracketText) (opened offset : Nat) (rest : List Char) :
    ((Bracket.read opened ⟨b.text ++ rest, offset⟩).map
      fun found => (found.1, found.2.rest)).mapError (·.fault) = b.found.map (·, rest) := by
  have hsealed : Bracket.Sealed b.text rest := by
    left
    intro x hx
    rw [b.closed] at hx
    exact (Option.mem_some_iff.mp hx).symm
  have hextends := Bracket.extends_read hsealed 0 opened 0 offset
  have hcomplete := b.complete
  unfold Bracket.Complete at hcomplete
  unfold found
  cases hread : Bracket.read 0 ⟨b.text, 0⟩ with
  | error e =>
    rw [hread] at hextends hcomplete
    obtain ⟨n, hread'⟩ := (hextends.resolve_left hcomplete.1).resolve_left hcomplete.2
    rw [hread']
    rfl
  | ok found =>
    obtain ⟨bracket, c⟩ := found
    rw [hread] at hextends hcomplete
    obtain ⟨-, n, hread'⟩ := hextends
    rw [hread', show c.rest = [] from hcomplete]
    rfl

end BracketText

end PosixRegex
