import PosixRegex.Proofs.Pattern.Spelling

namespace PosixRegex

def Repetition.quantifier? : Repetition → Option Quantifier
  | once => none
  | star => some .star
  | plus => some .plus
  | optional => some .optional
  | between m n => some (if m = n then .exactly m else .interval ⟨m, some n⟩)
  | atLeast m => some (.interval ⟨m, none⟩)

theorem Repetition.suffix_eq (times : Repetition) :
    times.suffix.toList = times.quantifier?.elim [] (·.print .extended) := by
  cases times with
  | once | star | plus | optional => rfl
  | between m n =>
    by_cases hmn : m = n
    · simp only [suffix, quantifier?, if_pos hmn]
      simp
      rfl
    · simp only [suffix, quantifier?, if_neg hmn]
      simp [Quantifier.print, Quantifier.bounds]
      rfl
  | atLeast m =>
    simp only [suffix, quantifier?]
    simp [Quantifier.print, Quantifier.bounds]
    rfl

namespace Token

variable {d : Dialect} {token : Token} {rest : List Char} {offset : Nat}

def Written (token : Token) (d : Dialect) (cs : List Char) : Prop :=
  ∃ x xs, cs = x :: xs ∧ ∀ rest offset token' after,
    read d x ⟨xs ++ rest, offset⟩ = .ok (token', after) → token' = token ∧ after.rest = rest

theorem repetition?_eq {b : Bounds} {times times' : Repetition}
    (h : b.repetition? = some times')
    (hb : b = ⟨times.min, times.max?⟩) (ht : times.isInterval = true) : times' = times := by
  subst hb
  cases times with
  | once | star | plus | optional => cases ht
  | between m n =>
    exact (Option.some.inj (Option.ite_none_right_eq_some.mp h).2).symm
  | atLeast m =>
    exact (Option.some.inj (Option.ite_none_right_eq_some.mp h).2).symm

theorem written_of_reads {cs : List Char} {found : Except PatternFault Token}
    (h : ∀ rest, Reads d cs rest found) (hfound : ∀ t, found = .ok t → t = token) :
    token.Written d cs := by
  obtain ⟨x, xs, rfl, -⟩ := h []
  refine ⟨x, xs, rfl, fun rest offset token' after hread => ?_⟩
  obtain ⟨y, ys, heq, hreads⟩ := h rest
  cases heq
  rcases cases_of_map_eq (hreads offset) with ⟨fault, herror, -⟩ | ⟨_, t, hok, ht, heq⟩
  · cases hread.symm.trans herror
  · cases hread.symm.trans hok
    obtain ⟨rfl, hrest⟩ := Prod.mk.inj heq
    exact ⟨hfound token' ht, hrest⟩

theorem written_of_reads_ok {cs : List Char}
    (h : ∀ rest, Reads d cs rest (.ok token)) : token.Written d cs :=
  written_of_reads h fun _ ht => (Except.ok.inj ht).symm

theorem written_of_eq {x : Char} (h : ∀ c, read d x c = .ok (token, c)) : token.Written d [x] :=
  written_of_reads_ok fun _ => reads_of_eq h

def ofAssertion : Assertion → Token
  | .lineStart => .caret
  | .lineEnd => .dollar
  | .word edge => .word edge

theorem written_assertion (what : Assertion) : (ofAssertion what).Written .extended what.print := by
  cases what with
  | lineStart => exact written_of_eq fun _ => rfl
  | lineEnd => exact written_of_reads_ok fun _ => reads_dollar nofun
  | word edge => exact written_of_reads_ok fun _ => reads_word edge

theorem written_suffix {times : Repetition} (h : times ≠ .once) :
    times.token.Written .extended times.suffix.toList := by
  have hbounds : ∀ {b : Bounds}, b = ⟨times.min, times.max?⟩ → times.isInterval = true →
      ∀ t, Quantifier.ofBounds b = .ok t → t = times.token := by
    intro b hb hinterval t ht
    unfold Quantifier.ofBounds at ht
    split at ht
    · rename_i times' htimes
      cases ht
      rw [Bounds.quantifier_eq_token htimes, repetition?_eq htimes hb hinterval]
    · cases ht
  obtain ⟨q, hq, htoken⟩ : ∃ q, times.quantifier? = some q ∧
      ∀ t, q.token = .ok t → t = times.token := by
    cases times with
    | once => exact absurd rfl h
    | star | plus | optional => exact ⟨_, rfl, fun _ ht => (Except.ok.inj ht).symm⟩
    | between m n =>
      by_cases hmn : m = n
      · subst hmn
        exact ⟨.exactly m, by simp [Repetition.quantifier?], hbounds rfl rfl⟩
      · exact ⟨.interval ⟨m, some n⟩, by simp [Repetition.quantifier?, hmn], hbounds rfl rfl⟩
    | atLeast m => exact ⟨_, rfl, hbounds rfl rfl⟩
  rw [Repetition.suffix_eq, hq]
  exact written_of_reads (fun _ => reads_quantifier q) htoken

end Token

namespace Reader

variable {d : Dialect} {limits : CompileLimits} {r r' : Reader} {q : Pattern}
  {rest cs : List Char}

/-- Reading on with `cs` ahead gives the pattern `q`. -/
def Reads (d : Dialect) (limits : CompileLimits) (r : Reader) (cs : List Char) (q : Pattern) :
    Prop :=
  ∃ steps offset, cs.length ≤ steps ∧ readAll d limits steps r ⟨cs, offset⟩ = .ok q

structure Follows (r r' : Reader) (items : Pattern) : Prop where
  items : r'.scope.items = items
  outer : r'.outer = r.outer

theorem Follows.trans {r₁ r₂ r₃ : Reader} {p q : Pattern} (h : r₁.Follows r₂ p)
    (h' : r₂.Follows r₃ q) : r₁.Follows r₃ q :=
  ⟨h'.items, h'.outer.trans h.outer⟩

theorem follows_char {c : Char} (h : r.char .extended limits c = .ok r') :
    r.Follows r' (.leaf (.char c) .once r.scope.items) := by
  obtain ⟨size, run, rfl⟩ := exists_push_of_char h
  exact ⟨rfl, rfl⟩

theorem follows_leaf {what : Leaf} (h : r.leaf .extended what = .ok r') :
    r.Follows r' (.leaf what .once r.scope.items) := by
  obtain rfl := eq_push_of_leaf h
  exact ⟨rfl, rfl⟩

theorem follows_backRef {g : Nat} (h : r.backRef .extended g = .ok r') :
    r.Follows r' (.leaf (.backRef g) .once r.scope.items) := by
  unfold Reader.backRef at h
  split at h
  · exact follows_leaf h
  · cases h

theorem follows_assertion {what : Assertion} {offset : Nat}
    (h : r.step .extended limits offset (.ofAssertion what) = .ok r') :
    r.Follows r' (.assert what r.scope.items) := by
  cases what with
  | lineStart =>
    unfold Token.ofAssertion Reader.step Reader.caret at h
    cases h
    exact ⟨rfl, rfl⟩
  | lineEnd =>
    cases h
    exact ⟨rfl, rfl⟩
  | word edge =>
    cases h
    exact ⟨rfl, rfl⟩

theorem follows_quantifier {times : Repetition} {offset : Nat}
    (hop : r.scope.items.operand = .plain)
    (h : r.step .extended limits offset times.token = .ok r') :
    r.Follows r' (r.scope.items.setTimes times) := by
  have hquantify : r.step .extended limits offset times.token = r.quantify .extended times := by
    cases times <;> rfl
  rw [hquantify] at h
  unfold Reader.quantify at h
  rw [hop] at h
  cases h
  exact ⟨rfl, rfl⟩

theorem Reads.readToken {x : Char} (h : Reads d limits r (x :: cs) q) : ∃ offset r' after,
    r.readToken d limits x offset ⟨cs, offset + x.utf8Size⟩ = .ok (r', after) ∧
      (after.rest.length ≤ cs.length → Reads d limits r' after.rest q) := by
  obtain ⟨steps, offset, hsteps, h⟩ := h
  rw [List.length_cons] at hsteps
  obtain ⟨steps, rfl⟩ : ∃ k, steps = k + 1 := ⟨steps - 1, by omega⟩
  simp only [readAll, Cursor.next?] at h
  obtain ⟨⟨r', after⟩, htoken, h⟩ := exists_of_bind_eq_ok h
  simp only at h
  split at h
  · cases h
  · exact ⟨offset, r', after, htoken, fun hle => ⟨steps, after.offset, by omega, h⟩⟩

theorem Reads.step (token : Token) (hw : token.Written d cs) (hb : token ≠ .bracket)
    (h : Reads d limits r (cs ++ rest) q) :
    ∃ r' offset, r.step d limits offset token = .ok r' ∧ Reads d limits r' rest q := by
  obtain ⟨x, xs, rfl, hread⟩ := hw
  obtain ⟨offset, r', after, htoken, h⟩ := h.readToken
  unfold Reader.readToken at htoken
  obtain ⟨⟨token', c⟩, ht, hthen⟩ := exists_of_bind_eq_ok htoken
  obtain ⟨rfl, rfl⟩ := hread _ _ _ _ (ok_of_mapError ht)
  obtain ⟨r₁, hstep, hpush⟩ := exists_of_bind_eq_ok hthen
  have hstep := ok_of_mapError hstep
  cases token' with
  | bracket => exact absurd rfl hb
  | _ =>
    cases hpush
    exact ⟨r', offset, hstep, h (by simp)⟩

theorem eq_reverse_of_reads (h : Reads d limits r [] q) :
    r.outer = [] ∧ q = r.scope.items.reverse := by
  obtain ⟨steps, offset, -, h⟩ := h
  have hfinish : r.finish limits offset = .ok q := by
    cases steps <;> exact h
  unfold Reader.finish at hfinish
  split at hfinish
  · cases hfinish
  · rename_i houter
    split at hfinish
    · cases hfinish
    · cases hfinish
      exact ⟨houter, rfl⟩

theorem Reads.openGroup (h : Reads d limits r (d.operator '(' ++ rest) q) :
    ∃ r', r'.scope.items = .done ∧ r'.outer = r.scope :: r.outer ∧ Reads d limits r' rest q := by
  obtain ⟨r', offset, hstep, h⟩ := h.step .openGroup
    (Token.written_of_reads_ok fun _ => Token.reads_operator (fun _ => rfl) fun _ => rfl)
    (fun he => nomatch he)
  obtain rfl := eq_of_openGroup hstep
  exact ⟨_, rfl, rfl, h⟩

theorem Reads.closeGroup {up : Scope} {outer : List Scope} (houter : r.outer = up :: outer)
    (h : Reads d limits r (d.operator ')' ++ rest) q) :
    ∃ r', r'.scope.items = .group r.scope.items.reverse .once up.items ∧ r'.outer = outer ∧
      Reads d limits r' rest q := by
  obtain ⟨r', offset, hstep, h⟩ := h.step .closeGroup
    (Token.written_of_reads_ok fun _ => Token.reads_operator (fun _ => rfl) fun _ => rfl)
    (fun he => nomatch he)
  obtain ⟨up', outer', hup, rfl⟩ := exists_of_closeGroup hstep
  cases houter.symm.trans hup
  exact ⟨_, rfl, rfl, h⟩

theorem Reads.bracket {b : Bracket} (hb : b.items ≠ [])
    (h : Reads .extended limits r (b.print ++ rest) q) :
    ∃ r', r.Follows r' (.leaf (.bracket b) .once r.scope.items) ∧
      Reads .extended limits r' rest q := by
  obtain ⟨cs, hcs⟩ : ∃ cs, b.print = '[' :: cs := ⟨_, rfl⟩
  rw [hcs] at h
  obtain ⟨offset, r', after, htoken, h⟩ := h.readToken
  unfold Reader.readToken at htoken
  obtain ⟨⟨token, c⟩, ht, htoken⟩ := exists_of_bind_eq_ok htoken
  cases ok_of_mapError ht
  obtain ⟨r₁, hstep, htoken⟩ := exists_of_bind_eq_ok htoken
  obtain ⟨-, -, hstep⟩ := exists_of_bind_eq_ok (x := r.checkDollar .extended)
    (f := fun _ => .ok r) (ok_of_mapError hstep)
  cases hstep
  obtain ⟨⟨b', c₁⟩, hread, hpush⟩ := exists_of_bind_eq_ok htoken
  obtain ⟨rfl, rfl⟩ := Bracket.read_print hb hcs hread
  cases hpush
  exact ⟨r.push (.leaf (.bracket b') .once) 1 0, ⟨rfl, rfl⟩, h (by simp)⟩

theorem Reads.leaf {what : Leaf} (hw : what.Writable)
    (h : Reads .extended limits r (what.print ++ rest) q) :
    ∃ r', r.Follows r' (.leaf what .once r.scope.items) ∧ Reads .extended limits r' rest q := by
  cases what with
  | char c =>
    obtain ⟨r', offset, hstep, h⟩ := h.step (.char c)
      (Token.written_of_reads_ok (Token.reads_quote .extended c)) (fun he => nomatch he)
    exact ⟨r', follows_char hstep, h⟩
  | any =>
    obtain ⟨r', offset, hstep, h⟩ := h.step .any (Token.written_of_eq fun _ => rfl)
      (fun he => nomatch he)
    exact ⟨r', follows_leaf hstep, h⟩
  | bracket b => exact h.bracket hw
  | backRef g =>
    obtain ⟨r', offset, hstep, h⟩ := h.step (.backRef g)
      (Token.written_of_reads_ok fun _ => Token.reads_backRef hw) (fun he => nomatch he)
    exact ⟨r', follows_backRef hstep, h⟩

theorem Reads.assertion {what : Assertion} (h : Reads .extended limits r (what.print ++ rest) q) :
    ∃ r', r.Follows r' (.assert what r.scope.items) ∧ Reads .extended limits r' rest q := by
  obtain ⟨r', offset, hstep, h⟩ := h.step (.ofAssertion what) (Token.written_assertion what)
    (by cases what <;> nofun)
  exact ⟨r', follows_assertion hstep, h⟩

theorem Reads.suffix {times : Repetition} (hop : r.scope.items.operand = .plain)
    (h : Reads .extended limits r (times.suffix.toList ++ rest) q) :
    ∃ r', r.Follows r' (r.scope.items.setTimes times) ∧ Reads .extended limits r' rest q := by
  by_cases ho : times = .once
  · subst ho
    refine ⟨r, ⟨?_, rfl⟩, h⟩
    cases hitems : r.scope.items with
    | done | assert | bar => rfl
    | leaf what times rest | group body times rest =>
      rw [hitems] at hop
      simp only [Pattern.operand] at hop
      split at hop
      · rename_i honce
        obtain rfl : times = .once := by simpa [Repetition.isOnce] using honce
        rfl
      · cases hop
  · have hbracket : times.token ≠ .bracket := by
      intro he
      cases times <;> cases he
    obtain ⟨r', offset, hstep, h⟩ := h.step times.token (Token.written_suffix ho) hbracket
    exact ⟨r', follows_quantifier hop hstep, h⟩

/-- The items of a written pattern are put before those that have been read. -/
theorem Reads.print {p : Pattern} (hw : p.Writable)
    (h : Reads .extended limits r (p.print ++ rest) q) :
    ∃ r', r.Follows r' (p.reverseOnto r.scope.items) ∧ Reads .extended limits r' rest q := by
  induction p generalizing r rest with
  | done => exact ⟨r, ⟨rfl, rfl⟩, h⟩
  | leaf what times p ih =>
    rw [Pattern.print, List.append_assoc, List.append_assoc] at h
    obtain ⟨r₁, h₁, h⟩ := h.leaf hw.1
    obtain ⟨r₂, h₂, h⟩ := h.suffix (by rw [h₁.items]; rfl)
    obtain ⟨r₃, h₃, h⟩ := ih hw.2 h
    rw [h₁.items] at h₂
    rw [h₂.items] at h₃
    exact ⟨r₃, (h₁.trans h₂).trans h₃, h⟩
  | assert what p ih =>
    rw [Pattern.print, List.append_assoc] at h
    obtain ⟨r₁, h₁, h⟩ := h.assertion
    obtain ⟨r₂, h₂, h⟩ := ih hw h
    rw [h₁.items] at h₂
    exact ⟨r₂, h₁.trans h₂, h⟩
  | bar p ih =>
    change Reads .extended limits r (['|'] ++ (p.print ++ rest)) q at h
    obtain ⟨r₁, offset, hstep, h⟩ := h.step .bar (Token.written_of_eq fun _ => rfl)
      (fun he => nomatch he)
    cases hstep
    obtain ⟨r₂, h₂, h⟩ := ih hw h
    exact ⟨r₂, ⟨h₂.items, h₂.outer⟩, h⟩
  | group body times p ihbody ih =>
    have htext : (Pattern.group body times p).print ++ rest =
        ['('] ++ (body.print ++ ([')'] ++ (times.suffix.toList ++ (p.print ++ rest)))) := by
      simp [Pattern.print]
    rw [htext] at h
    obtain ⟨r₁, hitems₁, houter₁, h⟩ := h.openGroup
    obtain ⟨r₂, h₂, h⟩ := ihbody hw.1 h
    obtain ⟨r₃, hitems₃, houter₃, h⟩ := h.closeGroup (h₂.outer.trans houter₁)
    have h₃ : r.Follows r₃ (.group body .once r.scope.items) := by
      refine ⟨?_, houter₃⟩
      rw [hitems₃, h₂.items, hitems₁, Pattern.reverse_reverseOnto]
      rfl
    obtain ⟨r₄, h₄, h⟩ := h.suffix (by rw [h₃.items]; rfl)
    obtain ⟨r₅, h₅, h⟩ := ih hw.2 h
    rw [h₃.items] at h₄
    rw [h₄.items] at h₅
    exact ⟨r₅, (h₃.trans h₄).trans h₅, h⟩

end Reader

theorem Pattern.eq_of_read_print {limits : CompileLimits} {p q : Pattern} (hw : p.Writable)
    (h : Pattern.read .extended limits p.print = .ok q) : q = p := by
  have hreads : Reader.Reads .extended limits Reader.start (p.print ++ []) q :=
    ⟨p.print.length, 0, by simp, by rwa [List.append_nil]⟩
  obtain ⟨r, hr, hend⟩ := hreads.print hw
  obtain ⟨-, rfl⟩ := Reader.eq_reverse_of_reads hend
  rw [hr.items]
  exact reverse_reverse p

end PosixRegex
