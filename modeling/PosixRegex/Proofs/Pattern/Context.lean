import PosixRegex.Proofs.Pattern.Lookahead
import PosixRegex.Proofs.Pattern.RoundTrip

namespace PosixRegex

namespace Pattern

def append : Pattern → Pattern → Pattern
  | done, k => k
  | leaf what times rest, k => leaf what times (rest.append k)
  | assert what rest, k => assert what (rest.append k)
  | group body times rest, k => group body times (rest.append k)
  | bar rest, k => bar (rest.append k)

theorem groupCount_append (p k : Pattern) :
    (p.append k).groupCount = p.groupCount + k.groupCount := by
  induction p with
  | done => simp [append, groupCount]
  | leaf what times rest ih | assert what rest ih | bar rest ih => exact ih
  | group body times rest _ ih =>
    simp only [append, groupCount, ih]
    omega

theorem reverseOnto_reverseOnto (p j k : Pattern) :
    (p.reverseOnto j).reverseOnto k = j.reverseOnto (p.append k) := by
  induction p generalizing j with
  | done => rfl
  | leaf what times rest ih => exact ih (leaf what times j)
  | assert what rest ih => exact ih (assert what j)
  | group body times rest _ ih => exact ih (group body times j)
  | bar rest ih => exact ih (bar j)

theorem reverse_reverseOnto_eq_append (p k : Pattern) : p.reverse.reverseOnto k = p.append k :=
  reverseOnto_reverseOnto p done k

/-- Groups around the first pattern, `count` of them, and then the items of the second one. -/
def copies (p : Pattern) : (count : Nat) → Pattern → Pattern
  | 0, k => k
  | count + 1, k => group p .once (p.copies count k)

theorem copies_group (p : Pattern) (count : Nat) (k : Pattern) :
    p.copies count (group p .once k) = p.copies (count + 1) k := by
  induction count with
  | zero => rfl
  | succ count ih => exact congrArg (group p .once) ih

theorem reverseOnto_copies (p : Pattern) (count : Nat) (j k : Pattern) :
    (p.copies count j).reverseOnto k = j.reverseOnto (p.copies count k) := by
  induction count generalizing k with
  | zero => rfl
  | succ count ih =>
    change (p.copies count j).reverseOnto (group p .once k) = _
    rw [ih, copies_group]

variable {p base : Pattern}

theorem operand_append (h : p ≠ done ∨ base.operand = .nothing) :
    (p.append base).operand = p.operand := by
  cases p with
  | done => exact h.resolve_left fun hp => hp rfl
  | leaf | assert | group | bar => rfl

theorem setTimes_append (h : p ≠ done) (times : Repetition) :
    (p.append base).setTimes times = (p.setTimes times).append base := by
  cases p with
  | done => exact absurd rfl h
  | leaf | assert | group | bar => rfl

end Pattern

namespace Reader

/-- The open scopes of two readers, where the second reader has got further scopes `below` those of
the first one, and has held the items of `base` in the scope above them before it read anything. -/
inductive Alike (base : Pattern) (below : List Scope) :
    Scope → List Scope → Scope → List Scope → Prop
  | outermost {s s' : Scope} (hitems : s'.items = s.items.append base) :
      Alike base below s [] s' below
  | inner {s s' up up' : Scope} {outer outer' : List Scope} (hitems : s'.items = s.items)
      (h : Alike base below up outer up' outer') :
      Alike base below s (up :: outer) s' (up' :: outer')

variable {d : Dialect} {base : Pattern} {below outer outer' : List Scope} {s s' : Scope}
  {r r' r₁ r₁' : Reader} {limits : CompileLimits} {offset offset' : Nat} {suffix : List Char}

theorem Alike.operand (h : Alike base below s outer s' outer')
    (hbase : s.items ≠ .done ∨ base.operand = .nothing) : s'.items.operand = s.items.operand := by
  cases h with
  | outermost hitems => rw [hitems, Pattern.operand_append hbase]
  | inner hitems => rw [hitems]

theorem Alike.change (h : Alike base below s outer s' outer') {n n' : Scope}
    {f : Pattern → Pattern} (hf : f (s.items.append base) = (f s.items).append base)
    (hn : n.items = f s.items) (hn' : n'.items = f s'.items) :
    Alike base below n outer n' outer' := by
  cases h with
  | outermost hitems => exact .outermost (by rw [hn', hitems, hf, hn])
  | inner hitems h => exact .inner (by rw [hn', hitems, hn]) h

theorem Alike.push (h : Alike base below r.scope r.outer r'.scope r'.outer)
    {f : Pattern → Pattern} (hf : f (r.scope.items.append base) = (f r.scope.items).append base)
    (size size' run run' : Nat) :
    Alike base below (r.push f size run).scope (r.push f size run).outer
      (r'.push f size' run').scope (r'.push f size' run').outer :=
  h.change hf rfl rfl

theorem alike_char {c : Char} (h : Alike base below r.scope r.outer r'.scope r'.outer)
    (hr : r.char d limits c = .ok r₁) (hr' : r'.char d limits c = .ok r₁') :
    Alike base below r₁.scope r₁.outer r₁'.scope r₁'.outer := by
  obtain ⟨size, run, rfl⟩ := exists_push_of_char hr
  obtain ⟨size', run', rfl⟩ := exists_push_of_char hr'
  exact h.push rfl _ _ _ _

theorem alike_quantify {times : Repetition}
    (h : Alike base below r.scope r.outer r'.scope r'.outer) (hr : r.quantify d times = .ok r₁)
    (hr' : r'.quantify d times = .ok r₁') :
    Alike base below r₁.scope r₁.outer r₁'.scope r₁'.outer := by
  have hne : r.scope.items ≠ .done := by
    intro hitems
    rw [Reader.quantify, hitems] at hr
    cases hr
  unfold Reader.quantify at hr hr'
  rw [h.operand (Or.inl hne)] at hr'
  cases hop : r.scope.items.operand with
  | nothing | assertion =>
    rw [hop] at hr
    cases hr
  | plain =>
    rw [hop] at hr hr'
    cases hr
    cases hr'
    exact h.push (Pattern.setTimes_append hne _) _ _ _ _
  | repeated current =>
    rw [hop] at hr hr'
    simp only at hr hr'
    split at hr
    · cases hr
    · rename_i hstack
      rw [if_neg hstack] at hr'
      cases hr
      cases hr'
      exact h.push (Pattern.setTimes_append hne _) _ _ _ _

/-- A token does the same to both readers. In the basic dialect its meaning can depend on the item
before it. -/
theorem alike_step (hbase : d = .extended ∨ base.operand = .nothing) {token : Token}
    (h : Alike base below r.scope r.outer r'.scope r'.outer)
    (hr : r.step d limits offset token = .ok r₁) (hr' : r'.step d limits offset' token = .ok r₁') :
    Alike base below r₁.scope r₁.outer r₁'.scope r₁'.outer := by
  cases token with
  | char c => exact alike_char h hr hr'
  | any =>
    obtain rfl := eq_push_of_leaf hr
    obtain rfl := eq_push_of_leaf hr'
    exact h.push rfl _ _ _ _
  | bracket =>
    obtain ⟨-, -, hr⟩ := exists_of_bind_eq_ok (x := r.checkDollar d) (f := fun _ => .ok r) hr
    obtain ⟨-, -, hr'⟩ := exists_of_bind_eq_ok (x := r'.checkDollar d) (f := fun _ => .ok r') hr'
    cases hr
    cases hr'
    exact h
  | backRef g =>
    change r.backRef d g = .ok r₁ at hr
    change r'.backRef d g = .ok r₁' at hr'
    unfold Reader.backRef at hr hr'
    split at hr
    · split at hr'
      · obtain rfl := eq_push_of_leaf hr
        obtain rfl := eq_push_of_leaf hr'
        exact h.push rfl _ _ _ _
      · cases hr'
    · cases hr
  | word edge =>
    cases hr
    cases hr'
    exact h.push rfl _ _ _ _
  | star =>
    cases d with
    | extended => exact alike_quantify h hr hr'
    | basic =>
      have hop := h.operand (Or.inr (hbase.resolve_left (by decide)))
      change r.star .basic limits = .ok r₁ at hr
      change r'.star .basic limits = .ok r₁' at hr'
      unfold Reader.star at hr hr'
      rw [hop] at hr'
      generalize r.scope.items.operand = operand at hr hr'
      cases operand with
      | nothing | assertion => exact alike_char h hr hr'
      | plain | repeated => exact alike_quantify h hr hr'
  | caret =>
    cases d with
    | extended =>
      cases hr
      cases hr'
      exact h.push rfl _ _ _ _
    | basic =>
      have hop := h.operand (Or.inr (hbase.resolve_left (by decide)))
      change r.caret .basic limits = .ok r₁ at hr
      change r'.caret .basic limits = .ok r₁' at hr'
      unfold Reader.caret at hr hr'
      rw [hop] at hr'
      generalize r.scope.items.operand = operand at hr hr'
      cases operand with
      | nothing =>
        cases hr
        cases hr'
        exact h.push rfl _ _ _ _
      | assertion | plain | repeated => exact alike_char h hr hr'
  | dollar =>
    cases hr
    cases hr'
    exact h.change (f := .assert .lineEnd) rfl rfl rfl
  | quantifier times => exact alike_quantify h hr hr'
  | openGroup =>
    obtain rfl := eq_of_openGroup hr
    obtain rfl := eq_of_openGroup hr'
    exact .inner rfl h
  | closeGroup =>
    change r.closeGroup = .ok r₁ at hr
    change r'.closeGroup = .ok r₁' at hr'
    unfold Reader.closeGroup at hr hr'
    generalize houter : r.outer = outer at h hr
    generalize houter' : r'.outer = outer' at h hr'
    generalize r.scope = scope at h hr
    generalize r'.scope = scope' at h hr'
    cases h with
    | outermost => cases hr
    | inner hitems h =>
      cases hr
      cases hr'
      exact h.change (f := .group scope.items.reverse .once) rfl rfl (by rw [hitems])
  | bar =>
    cases hr
    cases hr'
    exact h.change (f := .bar) rfl rfl rfl

theorem alike_readToken (hbase : d = .extended ∨ base.operand = .nothing) (hs : Delimited d suffix)
    (h : Alike base below r.scope r.outer r'.scope r'.outer) {x : Char} {c c' after after' : Cursor}
    (hc : c'.rest = c.rest ++ suffix)
    (hr : r.readToken d limits x offset c = .ok (r₁, after))
    (hr' : r'.readToken d limits x offset' c' = .ok (r₁', after')) :
    Alike base below r₁.scope r₁.outer r₁'.scope r₁'.outer ∧ after'.rest = after.rest ++ suffix ∧
      after.rest.length ≤ c.rest.length := by
  unfold Reader.readToken at hr hr'
  obtain ⟨⟨token, a⟩, ht, hr⟩ := exists_of_bind_eq_ok hr
  obtain ⟨⟨token', a'⟩, ht', hr'⟩ := exists_of_bind_eq_ok hr'
  obtain ⟨_, hread, hvalue, ha, hle⟩ := Token.read_suffix hs hc (ok_of_mapError ht)
  cases hread.symm.trans (ok_of_mapError ht')
  obtain rfl : token' = token := hvalue
  obtain ⟨r₂, hstep, hr⟩ := exists_of_bind_eq_ok hr
  obtain ⟨r₂', hstep', hr'⟩ := exists_of_bind_eq_ok hr'
  have hnext := alike_step hbase h (ok_of_mapError hstep) (ok_of_mapError hstep')
  cases token' with
  | bracket =>
    obtain ⟨⟨b, e⟩, hbracket, hr⟩ := exists_of_bind_eq_ok hr
    obtain ⟨⟨b', e'⟩, hbracket', hr'⟩ := exists_of_bind_eq_ok hr'
    obtain ⟨_, hread, hvalue, he, hele⟩ := Bracket.read_suffix offset' hs ha hbracket
    cases hread.symm.trans hbracket'
    obtain rfl : b' = b := hvalue
    cases hr
    cases hr'
    exact ⟨hnext.push rfl _ _ _ _, he, Nat.le_trans hele hle⟩
  | _ =>
    cases hr
    cases hr'
    exact ⟨hnext, ha, hle⟩

/-- While one reader reads a whole text, the other one reads the same text with something behind
it. -/
theorem Reads.alike (hbase : d = .extended ∨ base.operand = .nothing) (hs : Delimited d suffix)
    {cs : List Char} {p q : Pattern} (hr : Reads d limits r cs p)
    (hr' : Reads d limits r' (cs ++ suffix) q)
    (h : Alike base below r.scope r.outer r'.scope r'.outer) :
    ∃ r₁ r₁' : Reader, r₁.outer = [] ∧ p = r₁.scope.items.reverse ∧ Reads d limits r₁' suffix q ∧
      Alike base below r₁.scope r₁.outer r₁'.scope r₁'.outer := by
  induction hn : cs.length using Nat.strongRecOn generalizing cs r r' with
  | ind n ih =>
    subst hn
    cases cs with
    | nil =>
      obtain ⟨houter, hp⟩ := eq_reverse_of_reads hr
      exact ⟨r, r', houter, hp, hr', h⟩
    | cons x cs =>
      obtain ⟨offset, r₁, after, hread, hr⟩ := hr.readToken
      obtain ⟨offset', r₁', after', hread', hr'⟩ := Reads.readToken hr'
      obtain ⟨hnext, hrest, hle⟩ := alike_readToken hbase hs h rfl hread hread'
      have hr' : Reads d limits r₁' (after.rest ++ suffix) q := by
        rw [← hrest]
        refine hr' ?_
        change after'.rest.length ≤ (cs ++ suffix).length
        rw [hrest, List.length_append, List.length_append]
        exact Nat.add_le_add_right hle _
      exact ih _ (Nat.lt_succ_of_le hle) (hr hle) hr' hnext rfl

/-- The items of a pattern that is read on its own are put before those that have been read. -/
theorem Reads.pattern (hbase : d = .extended ∨ r.scope.items.operand = .nothing)
    (hs : Delimited d suffix) {text : List Char} {p q : Pattern}
    (hp : Pattern.read d limits text = .ok p) (h : Reads d limits r (text ++ suffix) q) :
    ∃ r', r.Follows r' (p.reverseOnto r.scope.items) ∧ Reads d limits r' suffix q := by
  have halone : Reads d limits start text p := ⟨text.length, 0, Nat.le_refl _, hp⟩
  have hstart : Alike r.scope.items r.outer start.scope start.outer r.scope r.outer :=
    .outermost rfl
  obtain ⟨r₁, r₁', houter, rfl, hrest, halike⟩ := halone.alike hbase hs h hstart
  refine ⟨r₁', ?_, hrest⟩
  rw [houter] at halike
  rw [Pattern.reverse_reverseOnto_eq_append]
  generalize houter' : r₁'.outer = outer' at halike
  cases halike with
  | outermost hitems => exact ⟨hitems, houter'⟩

theorem Reads.group {text : List Char} {p q : Pattern} (hp : Pattern.read d limits text = .ok p)
    (h : Reads d limits r (d.operator '(' ++ (text ++ (d.operator ')' ++ suffix))) q) :
    ∃ r', r.Follows r' (.group p .once r.scope.items) ∧ Reads d limits r' suffix q := by
  obtain ⟨r₁, hitems₁, houter₁, h⟩ := h.openGroup
  have hs : Delimited d (d.operator ')' ++ suffix) := Or.inr ⟨')', suffix, Or.inr rfl, rfl⟩
  obtain ⟨r₂, h₂, h⟩ := h.pattern (Or.inr (by rw [hitems₁]; rfl)) hs hp
  obtain ⟨r₃, hitems₃, houter₃, h⟩ := h.closeGroup (h₂.outer.trans houter₁)
  refine ⟨r₃, ⟨?_, houter₃⟩, h⟩
  rw [hitems₃, h₂.items, hitems₁, Pattern.reverse_reverseOnto]
  rfl

theorem Reads.copies {text : List Char} {p q : Pattern} (hp : Pattern.read d limits text = .ok p)
    (count : Nat) (h : Reads d limits r ((List.replicate count
      (d.operator '(' ++ (text ++ d.operator ')'))).flatten ++ suffix) q) :
    ∃ r', r.Follows r' (p.copies count r.scope.items) ∧ Reads d limits r' suffix q := by
  induction count generalizing r with
  | zero => exact ⟨r, ⟨rfl, rfl⟩, h⟩
  | succ count ih =>
    simp only [List.replicate_succ, List.flatten_cons, List.append_assoc] at h ih
    obtain ⟨r₁, h₁, h⟩ := h.group hp
    obtain ⟨r₂, h₂, h⟩ := ih h
    rw [h₁.items, Pattern.copies_group] at h₂
    exact ⟨r₂, h₁.trans h₂, h⟩

theorem Reads.last {text : List Char} {p q : Pattern} (hp : Pattern.read .extended limits text = .ok p)
    (h : Reads .extended limits r text q) : q = r.scope.items.reverseOnto p := by
  obtain ⟨r', hr', hend⟩ := Reads.pattern (Or.inl rfl) (Or.inl rfl) hp (by rwa [List.append_nil])
  obtain ⟨-, rfl⟩ := eq_reverse_of_reads hend
  rw [hr'.items, Pattern.reverse_reverseOnto]

end Reader

namespace Pattern

variable {d : Dialect} {limits : CompileLimits} {text : List Char} {p q : Pattern}

theorem reads_of_read (h : Pattern.read d limits text = .ok p) :
    Reader.Reads d limits .start text p :=
  ⟨text.length, 0, Nat.le_refl _, h⟩

theorem read_wrapped (hp : Pattern.read d limits text = .ok p)
    (hq : Pattern.read d limits (d.operator '(' ++ (text ++ d.operator ')')) = .ok q) :
    q = .group p .once .done := by
  have hreads : Reader.Reads d limits .start
      (d.operator '(' ++ (text ++ (d.operator ')' ++ []))) q := by
    rw [List.append_nil]
    exact reads_of_read hq
  obtain ⟨r, hr, hend⟩ := hreads.group hp
  obtain ⟨-, rfl⟩ := Reader.eq_reverse_of_reads hend
  rw [hr.items]
  rfl

theorem read_repeated {text behind : List Char} {p k q : Pattern} {times : Repetition}
    (hp : Pattern.read .extended limits text = .ok p)
    (hk : Pattern.read .extended limits behind = .ok k)
    (hq : Pattern.read .extended limits
      ('(' :: (text ++ (')' :: (times.suffix.toList ++ behind)))) = .ok q) :
    q = .group p times k := by
  have hreads : Reader.Reads .extended limits .start (Dialect.operator .extended '(' ++
      (text ++ (Dialect.operator .extended ')' ++ (times.suffix.toList ++ behind)))) q :=
    reads_of_read hq
  obtain ⟨r₁, h₁, hreads⟩ := hreads.group hp
  obtain ⟨r₂, h₂, hreads⟩ := hreads.suffix (by rw [h₁.items]; rfl)
  rw [hreads.last hk, h₂.items, h₁.items]
  rfl

theorem read_copies {text behind : List Char} {p k q : Pattern} {count : Nat}
    (hp : Pattern.read .extended limits text = .ok p)
    (hk : Pattern.read .extended limits behind = .ok k)
    (hq : Pattern.read .extended limits
      ((List.replicate count ('(' :: (text ++ [')']))).flatten ++ behind) = .ok q) :
    q = p.copies count k := by
  obtain ⟨r, hr, hend⟩ := Reader.Reads.copies hp count (reads_of_read hq)
  rw [hend.last hk, hr.items]
  exact reverseOnto_copies p count .done k

end Pattern

end PosixRegex
