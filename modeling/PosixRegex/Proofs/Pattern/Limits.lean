import PosixRegex.Proofs.Pattern.Passage

namespace PosixRegex

/-- What is read is rejected because it is too large. -/
def Outgrown {α : Type} (x : Except PatternError α) : Prop :=
  ∃ offset, x = .error ⟨offset, .patternTooLarge⟩

theorem Outgrown.map {α β : Type} {x : Except PatternError α} (h : Outgrown x) (f : α → β) :
    Outgrown (x.map f) := by
  obtain ⟨offset, rfl⟩ := h
  exact ⟨offset, rfl⟩

/-- The number of instructions that a token takes at most. A bracket expression is counted when it
has been read. -/
def Token.cost : Token → Nat
  | bar => 3
  | closeGroup => 2
  | bracket => 0
  | _ => 1

theorem Token.cost_le (token : Token) : token.cost ≤ 3 := by
  cases token <;> simp [cost]

namespace Reader

variable {d : Dialect} {limits limits' : CompileLimits} {r r' : Reader} {c after : Cursor}

def uncounted (r : Reader) : Reader := { r with size := 0, run := 0 }

theorem uncounted_char (d : Dialect) (limits : CompileLimits) (c : Char) (r : Reader) :
    (r.char d limits c).map uncounted = (r.uncounted.char d {} c).map uncounted := by
  unfold char
  rw [show r.uncounted.checkDollar d = r.checkDollar d from rfl]
  cases r.checkDollar d with
  | error e => rfl
  | ok =>
    by_cases hrun : 0 < r.run ∧ r.run < limits.run
    · simp only [bind, Except.bind, if_pos hrun]
      rfl
    · simp only [bind, Except.bind, if_neg hrun]
      rfl

theorem uncounted_leaf (d : Dialect) (what : Leaf) (r : Reader) :
    (r.leaf d what).map uncounted = (r.uncounted.leaf d what).map uncounted := by
  unfold leaf
  rw [show r.uncounted.checkDollar d = r.checkDollar d from rfl]
  cases r.checkDollar d <;> rfl

theorem uncounted_quantify (d : Dialect) (times : Repetition) (r : Reader) :
    (r.quantify d times).map uncounted = (r.uncounted.quantify d times).map uncounted := by
  unfold quantify
  rw [show r.uncounted.scope.items = r.scope.items from rfl]
  cases r.scope.items.operand with
  | nothing | assertion | plain => rfl
  | repeated current =>
    simp only
    split <;> rfl

theorem uncounted_openGroup (d : Dialect) (offset : Nat) (r : Reader) :
    (r.openGroup d offset).map uncounted = (r.uncounted.openGroup d offset).map uncounted := by
  unfold openGroup
  rw [show r.uncounted.checkDollar d = r.checkDollar d from rfl]
  cases r.checkDollar d with
  | error e => rfl
  | ok =>
    simp only [bind, Except.bind, show r.uncounted.groups = r.groups from rfl]
    split <;> rfl

theorem uncounted_closeGroup (r : Reader) :
    r.closeGroup.map uncounted = r.uncounted.closeGroup.map uncounted := by
  unfold closeGroup
  rw [show r.uncounted.outer = r.outer from rfl]
  cases r.outer <;> rfl

theorem uncounted_step (d : Dialect) (limits : CompileLimits) (offset : Nat) (r : Reader)
    (token : Token) :
    (r.step d limits offset token).map uncounted =
      (r.uncounted.step d {} offset token).map uncounted := by
  cases token with
  | char c => exact uncounted_char d limits c r
  | any => exact uncounted_leaf d .any r
  | bracket =>
    simp only [step, show r.uncounted.checkDollar d = r.checkDollar d from rfl]
    cases r.checkDollar d <;> rfl
  | backRef g =>
    simp only [step, backRef, show r.uncounted.closed = r.closed from rfl]
    split
    · exact uncounted_leaf d (.backRef g) r
    · rfl
  | word edge | dollar | bar => rfl
  | star =>
    simp only [step, star, show r.uncounted.scope.items = r.scope.items from rfl]
    split
    · exact uncounted_char .basic limits '*' r
    · exact uncounted_char .basic limits '*' r
    · exact uncounted_quantify _ .star r
  | caret =>
    simp only [step, caret, show r.uncounted.scope.items = r.scope.items from rfl]
    split
    · rfl
    · rfl
    · exact uncounted_char .basic limits '^' r
  | quantifier times => exact uncounted_quantify d times r
  | openGroup => exact uncounted_openGroup d offset r
  | closeGroup => exact uncounted_closeGroup r

theorem uncounted_readToken (h : r.uncounted = r'.uncounted) (x : Char) (offset : Nat) (c : Cursor) :
    (r.readToken d limits x offset c).map (fun found => (found.1.uncounted, found.2)) =
      (r'.readToken d limits' x offset c).map fun found => (found.1.uncounted, found.2) := by
  unfold readToken
  cases Token.read d x c with
  | error e => rfl
  | ok found =>
    obtain ⟨token, after⟩ := found
    have hstep : (r.step d limits offset token).map uncounted =
        (r'.step d limits' offset token).map uncounted := by
      rw [uncounted_step, h, ← uncounted_step d limits']
    simp only [Except.mapError, bind, Except.bind]
    obtain ⟨e, hr, hr'⟩ | ⟨r₁, r₁', hr, hr', h₁⟩ := cases_of_map_eq hstep
    · rw [hr, hr']
    · rw [hr, hr']
      cases token with
      | bracket =>
        simp only
        cases Bracket.read offset after with
        | error e => rfl
        | ok found =>
          obtain ⟨b, after⟩ := found
          exact congrArg
            (fun r => Except.ok ((r.push (.leaf (.bracket b) .once) 0 0).uncounted, after)) h₁
      | _ => exact congrArg (fun r => Except.ok (r, after)) h₁

/-- No instruction is taken back, and at most `n` are added. -/
def Grows (n : Nat) (r r' : Reader) : Prop := r.size ≤ r'.size ∧ r'.size ≤ r.size + n

theorem grows_add (r : Reader) {n k : Nat} (hk : k ≤ n) (hsize : r'.size = r.size + k) :
    Grows n r r' :=
  ⟨hsize ▸ Nat.le_add_right _ _, hsize ▸ Nat.add_le_add_left hk _⟩

theorem grows_char {x : Char} (h : r.char d limits x = .ok r') : Grows 1 r r' := by
  unfold char at h
  obtain ⟨-, -, h⟩ := exists_of_bind_eq_ok h
  by_cases hrun : 0 < r.run ∧ r.run < limits.run
  · rw [if_pos hrun] at h
    cases h
    exact grows_add r (Nat.zero_le 1) rfl
  · rw [if_neg hrun] at h
    cases h
    exact grows_add r (Nat.le_refl 1) rfl

theorem grows_leaf {what : Leaf} (h : r.leaf d what = .ok r') : Grows 1 r r' := by
  obtain rfl := eq_push_of_leaf h
  exact grows_add r (Nat.le_refl 1) rfl

theorem grows_quantify {times : Repetition} (h : r.quantify d times = .ok r') :
    Grows 1 r r' := by
  unfold quantify at h
  cases hoperand : r.scope.items.operand with
  | nothing | assertion =>
    rw [hoperand] at h
    cases h
  | plain =>
    rw [hoperand] at h
    cases h
    refine grows_add r (k := if 1 < r.run then 1 else 0) ?_ rfl
    split <;> omega
  | repeated current =>
    rw [hoperand] at h
    simp only at h
    split at h
    · cases h
    · cases h
      exact grows_add r (Nat.zero_le 1) rfl

theorem grows_closeGroup (h : r.closeGroup = .ok r') : Grows 2 r r' := by
  obtain ⟨up, outer, -, rfl⟩ := exists_of_closeGroup h
  refine grows_add r (k := chainEnd r.scope + 1) ?_ (Nat.add_assoc _ _ _)
  unfold chainEnd
  split <;> omega

theorem grows_step {offset : Nat} {token : Token} (h : r.step d limits offset token = .ok r') :
    Grows token.cost r r' := by
  cases moves_of_step h with
  | char h | starChar h | caretChar h => exact grows_char h
  | any h | backRef _ h => exact grows_leaf h
  | bracket => exact grows_add r (Nat.zero_le _) rfl
  | word | lineStart | dollar => exact grows_add r (Nat.le_refl 1) rfl
  | star h | quantifier h => exact grows_quantify h
  | openGroup h =>
    obtain rfl := eq_of_openGroup h
    exact grows_add r (Nat.le_refl 1) rfl
  | closeGroup h => exact grows_closeGroup h
  | bar =>
    refine grows_add r (k := if r.scope.barred then 2 else 3) ?_ rfl
    simp only [Token.cost]
    split <;> omega

theorem bounds_of_readToken {x : Char} {offset : Nat}
    (h : r.readToken d limits x offset c = .ok (r', after)) :
    Grows 3 r r' ∧ after.rest.length ≤ c.rest.length := by
  unfold readToken at h
  obtain ⟨⟨token, mid⟩, htoken, h⟩ := exists_of_bind_eq_ok h
  obtain ⟨r₁, hstep, h⟩ := exists_of_bind_eq_ok h
  obtain ⟨xs, hyields, -⟩ := Token.exists_yields_of_read (ok_of_mapError htoken)
  have hmid := hyields.length_le
  obtain ⟨hle, hsize⟩ := grows_step (ok_of_mapError hstep)
  split at h
  · obtain ⟨⟨b, last⟩, hb, h⟩ := exists_of_bind_eq_ok h
    cases h
    have hlast := (Bracket.yields_read hb).length_le
    simp only [Token.cost] at hsize
    exact ⟨⟨by simp only [push]; omega, by simp only [push]; omega⟩, Nat.le_trans hlast hmid⟩
  · cases h
    exact ⟨⟨hle, Nat.le_trans hsize (Nat.add_le_add_left token.cost_le r.size)⟩, hmid⟩

/-- There may not be room for all instructions that could still come. -/
def Tight (limits : CompileLimits) (r : Reader) (c : Cursor) : Prop :=
  limits.instructions < r.size + 3 * c.rest.length + 2

theorem finish_limits (h : r.uncounted = r'.uncounted) (c : Cursor) :
    r.finish limits c.offset = r'.finish limits' c.offset ∨
      Tight limits r c ∧ Outgrown (r.finish limits c.offset) ∨
      Tight limits' r' c ∧ Outgrown (r'.finish limits' c.offset) := by
  obtain ⟨hscope, houter, -⟩ := Reader.mk.inj h
  have hend : chainEnd r'.scope ≤ 1 := by
    unfold chainEnd
    split <;> omega
  unfold finish
  rw [hscope, houter]
  cases r'.outer with
  | cons up outer => exact Or.inl rfl
  | nil =>
    simp only
    by_cases hlarge : limits.instructions < r.size + chainEnd r'.scope + 1
    · rw [if_pos hlarge]
      exact Or.inr (Or.inl ⟨by unfold Tight; omega, c.offset, rfl⟩)
    · by_cases hlarge' : limits'.instructions < r'.size + chainEnd r'.scope + 1
      · rw [if_pos hlarge']
        exact Or.inr (Or.inr ⟨by unfold Tight; omega, c.offset, rfl⟩)
      · rw [if_neg hlarge, if_neg hlarge']
        exact Or.inl rfl

theorem readAll_limits (h : r.uncounted = r'.uncounted) {steps : Nat} :
    readAll d limits steps r c = readAll d limits' steps r' c ∨
      Tight limits r c ∧ Outgrown (readAll d limits steps r c) ∨
      Tight limits' r' c ∧ Outgrown (readAll d limits' steps r' c) := by
  induction steps generalizing r r' c with
  | zero => exact finish_limits h c
  | succ steps ih =>
    unfold readAll
    cases hx : c.next? with
    | none => exact finish_limits h c
    | some found =>
      obtain ⟨x, c₁⟩ := found
      have hc : c.rest.length = c₁.rest.length + 1 :=
        congrArg List.length (Cursor.next?_eq_some hx).1
      simp only
      obtain ⟨e, hr, hr'⟩ | ⟨⟨r₁, c₂⟩, ⟨r₁', c₂'⟩, hr, hr', h₁⟩ :=
        cases_of_map_eq (uncounted_readToken h x c.offset c₁)
      · rw [hr, hr']
        exact Or.inl rfl
      · obtain ⟨h₁, rfl⟩ := Prod.mk.inj h₁
        obtain ⟨⟨-, hsize⟩, hlength⟩ := bounds_of_readToken hr
        obtain ⟨⟨-, hsize'⟩, -⟩ := bounds_of_readToken hr'
        rw [hr, hr']
        simp only [bind, Except.bind]
        by_cases hlarge : limits.instructions < r₁.size
        · rw [if_pos hlarge]
          exact Or.inr (Or.inl ⟨by unfold Tight; omega, c.offset, rfl⟩)
        · by_cases hlarge' : limits'.instructions < r₁'.size
          · rw [if_pos hlarge']
            exact Or.inr (Or.inr ⟨by unfold Tight; omega, c.offset, rfl⟩)
          · rw [if_neg hlarge, if_neg hlarge']
            have htight : ∀ {limits : CompileLimits} {r r₁ : Reader}, r₁.size ≤ r.size + 3 →
                Tight limits r₁ c₂ → Tight limits r c := by
              unfold Tight
              omega
            exact (ih h₁).imp_right (Or.imp (And.imp_left (htight hsize))
              (And.imp_left (htight hsize')))

end Reader

/-- A pattern is read alike under all limits, unless it is too large for one of them. It is not if
the limit admits three instructions for each character. -/
theorem Pattern.read_limits (d : Dialect) (limits limits' : CompileLimits) (text : List Char) :
    Pattern.read d limits text = Pattern.read d limits' text ∨
      limits.instructions < 3 * text.length + 2 ∧ Outgrown (Pattern.read d limits text) ∨
      limits'.instructions < 3 * text.length + 2 ∧
        Outgrown (Pattern.read d limits' text) := by
  have htight : ∀ limits, Reader.Tight limits .start (.ofList text) →
      limits.instructions < 3 * text.length + 2 := by
    intro limits h
    simpa [Reader.Tight, Reader.start, Cursor.ofList] using h
  exact (Reader.readAll_limits rfl).imp_right
    (Or.imp (And.imp_left (htight limits)) (And.imp_left (htight limits')))

end PosixRegex
