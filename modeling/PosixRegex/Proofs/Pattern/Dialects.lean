import PosixRegex.Proofs.Pattern.BracketText
import PosixRegex.Proofs.Pattern.Spelling

namespace PosixRegex

namespace Expression

inductive Atom
  | char (c : Char)
  | any
  | bracket (b : BracketText)
  /-- A reference to the group whose number is larger by one. -/
  | backRef (g : Fin 9)

/-- What a group consists of, behind the caret that may stand in first place. An alternative may end
with a dollar sign, and the next one may start with a caret. -/
inductive Items
  | done (dollar : Bool)
  | bar (dollar caret : Bool) (rest : Items)
  | atom (what : Atom) (times : Option Quantifier) (rest : Items)
  | word (edge : WordEdge) (rest : Items)
  | group (caret : Bool) (body : Items) (times : Option Quantifier) (rest : Items)

end Expression

structure Expression where
  caret : Bool
  items : Expression.Items

namespace Expression

def Atom.print (d : Dialect) : Atom → List Char
  | char c => d.quote c
  | any => ['.']
  | bracket b => '[' :: b.text
  | backRef g => Leaf.print (.backRef (g.val + 1))

def anchor (c : Char) (present : Bool) : List Char := if present then [c] else []

def quantified (d : Dialect) (times : Option Quantifier) : List Char :=
  times.elim [] (·.print d)

def Items.print (d : Dialect) : Items → List Char
  | done dollar => anchor '$' dollar
  | bar dollar caret rest =>
    anchor '$' dollar ++ (d.operator '|' ++ (anchor '^' caret ++ rest.print d))
  | atom what times rest => what.print d ++ (quantified d times ++ rest.print d)
  | word edge rest => Assertion.print (.word edge) ++ rest.print d
  | group caret body times rest =>
    d.operator '(' ++ (anchor '^' caret ++ (body.print d ++
      (d.operator ')' ++ (quantified d times ++ rest.print d))))

def print (d : Dialect) (e : Expression) : List Char :=
  anchor '^' e.caret ++ e.items.print d

end Expression

def Scope.forget (s : Scope) : Scope := { s with opened := 0 }

namespace Reader

variable {d : Dialect} {limits : CompileLimits} {r r' : Reader} {cs cs' rest rest' : List Char}

def forget (r : Reader) : Reader :=
  { r with scope := r.scope.forget, outer := r.outer.map Scope.forget }

theorem forget_char (d : Dialect) (limits : CompileLimits) (c : Char) (r : Reader) :
    (r.char d limits c).map forget = r.forget.char d limits c := by
  have hcheck : r.forget.checkDollar d = r.checkDollar d := rfl
  unfold char
  rw [hcheck]
  cases r.checkDollar d with
  | error e => rfl
  | ok =>
    simp only [bind, Except.bind, show r.forget.run = r.run from rfl]
    split <;> rfl

theorem forget_leaf (d : Dialect) (what : Leaf) (r : Reader) :
    (r.leaf d what).map forget = r.forget.leaf d what := by
  have hcheck : r.forget.checkDollar d = r.checkDollar d := rfl
  unfold leaf
  rw [hcheck]
  cases r.checkDollar d <;> rfl

theorem forget_quantify (d : Dialect) (times : Repetition) (r : Reader) :
    (r.quantify d times).map forget = r.forget.quantify d times := by
  have hitems : r.forget.scope.items = r.scope.items := rfl
  unfold quantify
  rw [hitems]
  split
  · rfl
  · rfl
  · rfl
  · split <;> rfl

theorem forget_openGroup (d : Dialect) (offset : Nat) (r : Reader) :
    (r.openGroup d offset).map forget = r.forget.openGroup d 0 := by
  have hcheck : r.forget.checkDollar d = r.checkDollar d := rfl
  unfold openGroup
  rw [hcheck]
  cases r.checkDollar d with
  | error e => rfl
  | ok =>
    simp only [bind, Except.bind, show r.forget.groups = r.groups from rfl]
    split <;> rfl

theorem forget_closeGroup (r : Reader) : r.closeGroup.map forget = r.forget.closeGroup := by
  unfold closeGroup
  simp only [show r.forget.outer = r.outer.map Scope.forget from rfl]
  cases r.outer <;> rfl

theorem forget_step (d : Dialect) (limits : CompileLimits) (offset : Nat) (r : Reader)
    (token : Token) :
    (r.step d limits offset token).map forget = r.forget.step d limits 0 token := by
  have hitems : r.forget.scope.items = r.scope.items := rfl
  cases token with
  | char c => exact forget_char d limits c r
  | any => exact forget_leaf d .any r
  | bracket =>
    simp only [step, show r.forget.checkDollar d = r.checkDollar d from rfl]
    cases r.checkDollar d <;> rfl
  | backRef g =>
    simp only [step, backRef, show r.forget.closed = r.closed from rfl]
    split
    · exact forget_leaf d (.backRef g) r
    · rfl
  | word edge | dollar | bar => rfl
  | star =>
    simp only [step, star, hitems]
    split
    · exact forget_char .basic limits '*' r
    · exact forget_char .basic limits '*' r
    · exact forget_quantify _ .star r
  | caret =>
    simp only [step, caret, hitems]
    split
    · rfl
    · rfl
    · exact forget_char .basic limits '^' r
  | quantifier times => exact forget_quantify d times r
  | openGroup => exact forget_openGroup d offset r
  | closeGroup => exact forget_closeGroup r

/-- Whether a token has the same meaning in both dialects here. -/
def Neutral (r : Reader) : Token → Prop
  | .caret => r.scope.items.operand = .nothing
  | .star | .quantifier _ => r.scope.items.operand = .plain
  | .char _ | .any | .bracket | .backRef _ | .openGroup => r.scope.dollar = false
  | .word _ | .dollar | .closeGroup | .bar => True

theorem step_basic_eq {token : Token} (h : r.Neutral token) (offset : Nat) :
    r.step .basic limits offset token = r.step .extended limits offset token := by
  have hcheck : r.scope.dollar = false → r.checkDollar .basic = r.checkDollar .extended := by
    intro hdollar
    simp [checkDollar, hdollar]
  have hquantify : r.scope.items.operand = .plain → ∀ times,
      r.quantify .basic times = r.quantify .extended times := by
    intro hplain times
    simp only [quantify, hplain]
  cases token with
  | char c => simp only [step, char, hcheck h]
  | any => simp only [step, leaf, hcheck h]
  | bracket => simp only [step, hcheck h]
  | backRef g => simp only [step, backRef, leaf, hcheck h]
  | openGroup => simp only [step, openGroup, hcheck h]
  | star => simp only [step, star, show r.scope.items.operand = .plain from h, hquantify h]
  | quantifier times => exact hquantify h times
  | caret => simp only [step, caret, show r.scope.items.operand = .nothing from h]
  | word edge | dollar | closeGroup | bar => rfl

/-- The text `cs` in front of `rest` is one token, with this effect on a reader that has forgotten
where its scopes were opened. -/
def Passes (d : Dialect) (limits : CompileLimits) (r : Reader) (cs rest : List Char)
    (effect : Except PatternFault Reader) : Prop :=
  ∃ x xs, cs = x :: xs ∧ ∀ (r' : Reader) (offset offset' : Nat), r'.forget = r →
    ((r'.readToken d limits x offset ⟨xs ++ rest, offset'⟩).map
      fun found => (found.1.forget, found.2.rest)).mapError (·.fault) = effect.map (·, rest)

theorem passes_of_reads {token : Except PatternFault Token} (h : Token.Reads d cs rest token)
    (hb : token ≠ .ok .bracket) :
    Passes d limits r cs rest (token >>= r.step d limits 0) := by
  obtain ⟨x, xs, rfl, hread⟩ := h
  refine ⟨x, xs, rfl, fun r' offset offset' hr => ?_⟩
  unfold readToken
  rcases cases_of_map_eq (hread offset') with ⟨fault, hfound, rfl⟩ |
    ⟨⟨token', after⟩, token, hfound, rfl, heq⟩
  · rw [hfound]
    rfl
  · obtain ⟨rfl, rfl⟩ : token' = token ∧ after.rest = rest := Prod.mk.inj heq
    have hstep := forget_step d limits offset r' token'
    rw [hr] at hstep
    rw [hfound]
    simp only [bind, Except.bind, Except.mapError]
    rw [← hstep]
    cases r'.step d limits offset token' with
    | error fault => rfl
    | ok r₁ =>
      cases token' with
      | bracket => exact absurd rfl hb
      | _ => rfl

theorem passes_bracket (limits : CompileLimits) (rest : List Char) (b : BracketText) :
    Passes d limits r ('[' :: b.text) rest (do
      r.checkDollar d
      let found ← b.found
      return r.push (.leaf (.bracket found) .once) 1 0) := by
  refine ⟨'[', b.text, rfl, fun r' offset offset' hr => ?_⟩
  subst hr
  have hcheck : r'.forget.checkDollar d = r'.checkDollar d := rfl
  have htoken : Token.read d '[' ⟨b.text ++ rest, offset'⟩ =
      .ok (.bracket, ⟨b.text ++ rest, offset'⟩) := rfl
  unfold readToken
  rw [htoken, hcheck]
  simp only [bind, Except.bind, Except.mapError, step]
  cases r'.checkDollar d with
  | error fault => rfl
  | ok =>
    rcases cases_of_mapError_map_eq (b.read_append offset offset' rest) with ⟨e, hread, hfound⟩ |
      ⟨⟨bracket, after⟩, bracket', hread, hfound, heq⟩
    · rw [hread, hfound]
      rfl
    · obtain ⟨rfl, hrest⟩ : bracket = bracket' ∧ after.rest = rest := Prod.mk.inj heq
      rw [hread, hfound, ← hrest]
      rfl

theorem Passes.readAll {effect : Except PatternFault Reader}
    (h : Passes d limits r cs rest effect) {r₁ : Reader} (hr : r₁.forget = r) {steps : Nat}
    (hsteps : (cs ++ rest).length ≤ steps) (offset : Nat) :
    ∃ (r₂ : Reader) (steps' offset' : Nat), (∀ r', effect = .ok r' → r₂.forget = r') ∧
      rest.length ≤ steps' ∧
      (readAll d limits steps r₁ ⟨cs ++ rest, offset⟩).mapError (·.fault) = (do
        let r' ← effect
        if limits.instructions < r'.size then .error .patternTooLarge
        else (readAll d limits steps' r₂ ⟨rest, offset'⟩).mapError (·.fault)) := by
  obtain ⟨x, xs, rfl, htoken⟩ := h
  rw [List.cons_append, List.length_cons, List.length_append] at hsteps
  obtain ⟨steps, rfl⟩ : ∃ k, steps = k + 1 := ⟨steps - 1, by omega⟩
  rw [List.cons_append]
  simp only [Reader.readAll, Cursor.next?]
  rcases cases_of_mapError_map_eq (htoken r₁ offset (offset + x.utf8Size) hr) with
    ⟨e, hfound, rfl⟩ | ⟨⟨r₂, after⟩, r', hfound, rfl, heq⟩
  · rw [hfound]
    have hnone : ∀ r', (Except.error e.fault : Except PatternFault Reader) = .ok r' →
        r₁.forget = r' := by
      intro r' hok
      cases hok
    exact ⟨r₁, rest.length, 0, hnone, Nat.le_refl _, rfl⟩
  · obtain ⟨rfl, rfl⟩ : r₂.forget = r' ∧ after.rest = rest := Prod.mk.inj heq
    refine ⟨r₂, steps, after.offset, fun _ h => Except.ok.inj h, by omega, ?_⟩
    rw [hfound]
    simp only [bind, Except.bind, show r₂.forget.size = r₂.size from rfl]
    split <;> rfl

/-- With `cs` ahead in the basic dialect, and with `cs'` in the extended one, a reader comes to the
same result. -/
def Agree (limits : CompileLimits) (r : Reader) (cs cs' : List Char) : Prop :=
  ∀ (r₁ r₂ : Reader) (steps steps' offset offset' : Nat), r₁.forget = r → r₂.forget = r →
    cs.length ≤ steps → cs'.length ≤ steps' →
    (readAll .basic limits steps r₁ ⟨cs, offset⟩).mapError (·.fault) =
      (readAll .extended limits steps' r₂ ⟨cs', offset'⟩).mapError (·.fault)

theorem agree_nil (r : Reader) : Agree limits r [] [] := by
  intro r₁ r₂ steps steps' offset offset' h₁ h₂ _ _
  have hend : ∀ (d : Dialect) (r' : Reader) (steps offset : Nat), r'.forget = r →
      (readAll d limits steps r' ⟨[], offset⟩).mapError (·.fault) =
        (r.finish limits 0).mapError (·.fault) := by
    rintro d r' steps offset rfl
    have hfinish : readAll d limits steps r' ⟨[], offset⟩ = r'.finish limits offset := by
      cases steps <;> rfl
    rw [hfinish]
    unfold finish
    simp only [show r'.forget.outer = r'.outer.map Scope.forget from rfl]
    cases r'.outer with
    | cons s outer => rfl
    | nil =>
      simp only [List.map_nil, show r'.forget.size = r'.size from rfl,
        show chainEnd r'.forget.scope = chainEnd r'.scope from rfl]
      split <;> rfl
  rw [hend .basic r₁ steps offset h₁, hend .extended r₂ steps' offset' h₂]

theorem agree_of_passes {effect : Except PatternFault Reader}
    (hbasic : Passes .basic limits r cs rest effect)
    (hextended : Passes .extended limits r cs' rest' effect)
    (hthen : ∀ r', effect = .ok r' → Agree limits r' rest rest') :
    Agree limits r (cs ++ rest) (cs' ++ rest') := by
  intro r₁ r₂ steps steps' offset offset' h₁ h₂ hsteps hsteps'
  obtain ⟨r₃, k, o, hr₃, hk, hread⟩ := hbasic.readAll h₁ hsteps offset
  obtain ⟨r₄, k', o', hr₄, hk', hread'⟩ := hextended.readAll h₂ hsteps' offset'
  rw [hread, hread']
  cases effect with
  | error fault => rfl
  | ok r' =>
    simp only [bind, Except.bind]
    split
    · rfl
    · exact hthen r' rfl r₃ r₄ k k' o o' (hr₃ r' rfl) (hr₄ r' rfl) hk hk'

theorem agree_of_reads {found : Except PatternFault Token}
    (hbasic : Token.Reads .basic cs rest found) (hextended : Token.Reads .extended cs' rest' found)
    (hb : found ≠ .ok .bracket) (hneutral : ∀ token, found = .ok token → r.Neutral token)
    (hthen : ∀ token, found = .ok token → ∀ r', r.step .extended limits 0 token = .ok r' →
      Agree limits r' rest rest') : Agree limits r (cs ++ rest) (cs' ++ rest') := by
  have heffect : (found >>= r.step .basic limits 0) = found >>= r.step .extended limits 0 := by
    cases found with
    | error fault => rfl
    | ok token => exact step_basic_eq (hneutral token rfl) 0
  have hpasses : Passes .basic limits r cs rest (found >>= r.step .extended limits 0) :=
    heffect ▸ passes_of_reads hbasic hb
  refine agree_of_passes hpasses (passes_of_reads hextended hb) fun r' hr' => ?_
  obtain ⟨token, rfl, hstep⟩ := exists_of_bind_eq_ok hr'
  exact hthen token rfl r' hstep

theorem agree_token (token : Token) (hbasic : Token.Reads .basic cs rest (.ok token))
    (hextended : Token.Reads .extended cs' rest' (.ok token)) (hb : token ≠ .bracket)
    (hneutral : r.Neutral token)
    (hthen : ∀ r', r.step .extended limits 0 token = .ok r' → Agree limits r' rest rest') :
    Agree limits r (cs ++ rest) (cs' ++ rest') := by
  refine agree_of_reads hbasic hextended (fun h => hb (Except.ok.inj h)) ?_ ?_
  · intro token' h
    exact Except.ok.inj h ▸ hneutral
  · intro token' h
    exact Except.ok.inj h ▸ hthen

/-- What is not changed by the items of an alternative, up to its dollar sign. -/
structure Continues (r r' : Reader) : Prop where
  outer : r'.outer = r.outer
  dollar : r'.scope.dollar = r.scope.dollar

theorem Continues.trans {r₁ r₂ r₃ : Reader} (h : r₁.Continues r₂) (h' : r₂.Continues r₃) :
    r₁.Continues r₃ :=
  ⟨h'.outer.trans h.outer, h'.dollar.trans h.dollar⟩

open Expression

theorem agree_caret (present : Bool) (hop : r.scope.items.operand = .nothing)
    (hthen : ∀ r', r.Continues r' → Agree limits r' rest rest') :
    Agree limits r (anchor '^' present ++ rest) (anchor '^' present ++ rest') := by
  cases present with
  | false => exact hthen r ⟨rfl, rfl⟩
  | true =>
    refine agree_token .caret (Token.reads_of_eq fun _ => rfl) (Token.reads_of_eq fun _ => rfl)
      nofun hop fun r' hstep => hthen r' ?_
    cases hstep
    exact ⟨rfl, rfl⟩

theorem agree_dollar (present : Bool)
    (hends : ∀ offset, Token.endsExpression ⟨rest, offset⟩ = true)
    (hthen : ∀ r', r'.outer = r.outer → Agree limits r' rest rest') :
    Agree limits r (anchor '$' present ++ rest) (anchor '$' present ++ rest') := by
  cases present with
  | false => exact hthen r rfl
  | true =>
    refine agree_token .dollar (Token.reads_dollar fun _ => hends) (Token.reads_dollar nofun) nofun
      trivial fun r' hstep => hthen r' ?_
    cases hstep
    rfl

theorem agree_quantified (times : Option Quantifier) (hop : r.scope.items.operand = .plain)
    (hthen : ∀ r', r.Continues r' → Agree limits r' rest rest') :
    Agree limits r (quantified .basic times ++ rest) (quantified .extended times ++ rest') := by
  cases times with
  | none => exact hthen r ⟨rfl, rfl⟩
  | some q =>
    refine agree_of_reads (Token.reads_quantifier q) (Token.reads_quantifier q) ?_ ?_ ?_
    · intro h
      obtain ⟨times, htimes⟩ := Quantifier.exists_times h
      cases times <;> cases htimes
    · intro token h
      obtain ⟨times, rfl⟩ := Quantifier.exists_times h
      cases times <;> exact hop
    · intro token h r' hstep
      obtain ⟨times, rfl⟩ := Quantifier.exists_times h
      have hquantify : r.quantify .extended times = .ok r' := by
        cases times <;> exact hstep
      unfold quantify at hquantify
      rw [hop] at hquantify
      cases hquantify
      exact hthen _ ⟨rfl, rfl⟩

theorem agree_atom (what : Expression.Atom) (hdollar : r.scope.dollar = false)
    (hthen : ∀ r', r.Continues r' → r'.scope.items.operand = .plain →
      Agree limits r' rest rest') :
    Agree limits r (what.print .basic ++ rest) (what.print .extended ++ rest') := by
  have hpush : ∀ (what : Leaf) (size run : Nat),
      Agree limits (r.push (.leaf what .once) size run) rest rest' :=
    fun _ _ _ => hthen _ ⟨rfl, rfl⟩ rfl
  cases what with
  | char c =>
    refine agree_token (.char c) (Token.reads_quote .basic c rest)
      (Token.reads_quote .extended c rest') nofun hdollar fun r' hstep => ?_
    obtain ⟨size, run, rfl⟩ := exists_push_of_char hstep
    exact hpush _ size run
  | any =>
    refine agree_token .any (Token.reads_of_eq fun _ => rfl)
      (Token.reads_of_eq fun _ => rfl) nofun hdollar fun r' hstep => ?_
    obtain rfl := eq_push_of_leaf hstep
    exact hpush _ _ _
  | bracket b =>
    have hcheck : r.checkDollar .basic = r.checkDollar .extended := by
      simp [checkDollar, hdollar]
    have hbasic := passes_bracket (d := .basic) (r := r) limits rest b
    rw [hcheck] at hbasic
    refine agree_of_passes hbasic (passes_bracket limits rest' b) fun r' hr' => ?_
    obtain ⟨-, -, hr'⟩ := exists_of_bind_eq_ok hr'
    obtain ⟨found, -, hr'⟩ := exists_of_bind_eq_ok hr'
    cases hr'
    exact hpush _ _ _
  | backRef g =>
    have hg : 1 ≤ g.val + 1 ∧ g.val + 1 ≤ 9 := ⟨Nat.le_add_left 1 g.val, g.isLt⟩
    refine agree_token (.backRef (g.val + 1)) (Token.reads_backRef hg) (Token.reads_backRef hg)
      nofun hdollar fun r' hstep => ?_
    change r.backRef .extended (g.val + 1) = .ok r' at hstep
    unfold backRef at hstep
    split at hstep
    · obtain rfl := eq_push_of_leaf hstep
      exact hpush _ _ _
    · cases hstep

theorem continues_of_closeGroup {r₁ r' : Reader}
    (hclose : r₁.step .extended limits 0 .closeGroup = .ok r')
    (houter : r₁.outer = r.scope :: r.outer) :
    r'.scope.items.operand = .plain ∧ r.Continues r' := by
  obtain ⟨up, outer, hup, rfl⟩ := exists_of_closeGroup hclose
  cases houter.symm.trans hup
  exact ⟨rfl, rfl, rfl⟩

theorem agree_items (e : Items) (hdollar : r.scope.dollar = false)
    (hends : ∀ offset, Token.endsExpression ⟨rest, offset⟩ = true)
    (hthen : ∀ r', r'.outer = r.outer → Agree limits r' rest rest') :
    Agree limits r (e.print .basic ++ rest) (e.print .extended ++ rest') := by
  induction e generalizing r rest rest' with
  | done dollar => exact agree_dollar dollar hends hthen
  | bar dollar caret e ih =>
    simp only [Items.print, List.append_assoc]
    refine agree_dollar dollar (fun _ => rfl) fun r₁ h₁ => ?_
    refine agree_token .bar (Token.reads_operator (fun _ => rfl) fun _ => rfl)
      (Token.reads_operator (fun _ => rfl) fun _ => rfl) nofun trivial fun r₂ hstep => ?_
    cases hstep
    refine agree_caret caret rfl fun r₃ h₃ => ?_
    refine ih h₃.dollar hends fun r' hr' => hthen r' ?_
    rw [hr', h₃.outer, ← h₁]
    rfl
  | atom what times e ih =>
    simp only [Items.print, List.append_assoc]
    refine agree_atom what hdollar fun r₁ h₁ hop => ?_
    refine agree_quantified times hop fun r₂ h₂ => ?_
    have h := h₁.trans h₂
    exact ih (h.dollar.trans hdollar) hends fun r' hr' => hthen r' (hr'.trans h.outer)
  | word edge e ih =>
    simp only [Items.print, List.append_assoc]
    refine agree_token (.word edge) (Token.reads_word edge) (Token.reads_word edge) nofun trivial
      fun r₁ hstep => ?_
    cases hstep
    exact ih hdollar hends hthen
  | group caret body times e ihbody ih =>
    simp only [Items.print, List.append_assoc]
    refine agree_token .openGroup (Token.reads_operator (fun _ => rfl) fun _ => rfl)
      (Token.reads_operator (fun _ => rfl) fun _ => rfl) nofun hdollar fun r₁ hopen => ?_
    obtain rfl := eq_of_openGroup hopen
    refine agree_caret caret rfl fun r₂ h₂ => ?_
    refine ihbody h₂.dollar (fun _ => rfl) fun r₃ h₃ => ?_
    refine agree_token .closeGroup (Token.reads_operator (fun _ => rfl) fun _ => rfl)
      (Token.reads_operator (fun _ => rfl) fun _ => rfl) nofun trivial fun r₄ hclose => ?_
    obtain ⟨hop, h₄⟩ := continues_of_closeGroup hclose (h₃.trans h₂.outer)
    refine agree_quantified times hop fun r₅ h₅ => ?_
    have h := h₄.trans h₅
    exact ih (h.dollar.trans hdollar) hends fun r' hr' => hthen r' (hr'.trans h.outer)

/-- In both dialects the text of an expression is read as the same pattern, or the same is wrong with
it. -/
theorem agree_print (e : Expression) : Agree limits start (e.print .basic) (e.print .extended) := by
  have hprint : ∀ d, e.print d = anchor '^' e.caret ++ (e.items.print d ++ []) := by
    intro d
    rw [List.append_nil]
    rfl
  rw [hprint, hprint]
  refine agree_caret e.caret rfl fun r₁ h₁ => ?_
  exact agree_items e.items h₁.dollar (fun _ => rfl) fun r' _ => agree_nil r'

end Reader

theorem Pattern.read_print_dialects (limits : CompileLimits) (e : Expression) :
    (Pattern.read .basic limits (e.print .basic)).mapError (·.fault) =
      (Pattern.read .extended limits (e.print .extended)).mapError (·.fault) :=
  Reader.agree_print e _ _ _ _ _ _ rfl rfl (Nat.le_refl _) (Nat.le_refl _)

end PosixRegex
