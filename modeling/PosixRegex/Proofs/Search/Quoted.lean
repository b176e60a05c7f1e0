import PosixRegex.Proofs.Caseless
import PosixRegex.Proofs.Pattern.Limits
import PosixRegex.Proofs.Pattern.Spelling
import PosixRegex.Proofs.Search.FirstMatch
import PosixRegex.Regex

namespace PosixRegex

def Pattern.ofLeaves (whats : List Leaf) : Pattern :=
  whats.foldr (fun what rest => .leaf what .once rest) .done

namespace Reader

variable {d : Dialect} {limits : CompileLimits} {r : Reader} {offset : Nat}

theorem exists_push_char (hdollar : r.scope.dollar = false) (c : Char) :
    ∃ size run, size ≤ 1 ∧ r.char d limits c = .ok (r.push (.leaf (.char c) .once) size run) := by
  have hcheck : r.checkDollar d = .ok () := by simp [checkDollar, hdollar]
  unfold char
  rw [hcheck]
  by_cases hrun : 0 < r.run ∧ r.run < limits.run
  · exact ⟨0, r.run + 1, Nat.zero_le 1, if_pos hrun⟩
  · exact ⟨1, 1, Nat.le_refl 1, if_neg hrun⟩

/-- Where no dollar anchor forbids it, `word` is read as the item `what` in front of any text, with
one instruction at most. -/
def Takes (d : Dialect) (limits : CompileLimits) (word : List Char) (what : Leaf) : Prop :=
  ∀ rest, ∃ x xs, word = x :: xs ∧ ∀ (r : Reader) (offset offset' : Nat), r.scope.dollar = false →
    ∃ after size run, after.rest = rest ∧ size ≤ 1 ∧
      r.readToken d limits x offset ⟨xs ++ rest, offset'⟩ =
        .ok (r.push (.leaf what .once) size run, after)

theorem takes_quote (d : Dialect) (limits : CompileLimits) (c : Char) :
    Takes d limits (d.quote c) (.char c) := by
  intro rest
  obtain ⟨x, xs, hquote, hread⟩ := Token.reads_quote d c rest
  refine ⟨x, xs, hquote, fun r offset offset' hdollar => ?_⟩
  obtain ⟨size, run, hsize, hchar⟩ := @exists_push_char d limits r hdollar c
  obtain ⟨e, -, hok⟩ | ⟨⟨token, after⟩, token', htoken, hok, heq⟩ := cases_of_map_eq (hread offset')
  · cases hok
  · cases hok
    obtain ⟨rfl, hafter⟩ := Prod.mk.inj heq
    refine ⟨after, size, run, hafter, hsize, ?_⟩
    unfold readToken
    rw [htoken]
    simp only [Except.mapError, bind, Except.bind, step, hchar]
    rfl

/-- The rest of a text of words is read, unless there is no room for one instruction for each of
them. -/
theorem readAll_words (hdollar : r.scope.dollar = false) (hbarred : r.scope.barred = false)
    (houter : r.outer = []) {ws : List (List Char × Leaf)} (hws : ∀ w ∈ ws, Takes d limits w.1 w.2)
    {steps : Nat} (hsteps : (ws.flatMap Prod.fst).length ≤ steps) :
    readAll d limits steps r ⟨ws.flatMap Prod.fst, offset⟩ =
        .ok (r.scope.items.reverseOnto (.ofLeaves (ws.map Prod.snd))) ∨
      limits.instructions ≤ r.size + ws.length ∧
        Outgrown (readAll d limits steps r ⟨ws.flatMap Prod.fst, offset⟩) := by
  induction ws generalizing r steps offset with
  | nil =>
    have hfinish : readAll d limits steps r ⟨[], offset⟩ = r.finish limits offset := by
      cases steps <;> rfl
    rw [List.flatMap_nil, hfinish]
    simp only [finish, houter, chainEnd, hbarred, Bool.false_eq_true, if_false]
    by_cases hlarge : limits.instructions < r.size + 0 + 1
    · rw [if_pos hlarge]
      exact Or.inr ⟨by simpa using Nat.le_of_lt_succ hlarge, offset, rfl⟩
    · rw [if_neg hlarge]
      exact Or.inl rfl
  | cons w ws ih =>
    obtain ⟨hw, hws⟩ := List.forall_mem_cons.mp hws
    obtain ⟨x, xs, hword, htoken⟩ := hw (ws.flatMap Prod.fst)
    rw [List.flatMap_cons, hword, List.cons_append, List.length_cons, List.length_append] at hsteps
    obtain ⟨steps, rfl⟩ : ∃ k, steps = k + 1 := ⟨steps - 1, by omega⟩
    obtain ⟨⟨rest, offset'⟩, size, run, hrest, hsize, hread⟩ :=
      htoken r offset (offset + x.utf8Size) hdollar
    obtain rfl : rest = ws.flatMap Prod.fst := hrest
    rw [List.flatMap_cons, hword, List.cons_append]
    simp only [readAll, Cursor.next?, hread, bind, Except.bind]
    by_cases hlarge : limits.instructions < (r.push (.leaf w.2 .once) size run).size
    · rw [if_pos hlarge]
      refine Or.inr ⟨?_, offset, rfl⟩
      simp only [push] at hlarge
      rw [List.length_cons]
      omega
    · rw [if_neg hlarge]
      refine (@ih (r.push (.leaf w.2 .once) size run) offset' hdollar hbarred houter hws
        steps (by omega)).imp_right (And.imp_left fun h => Nat.le_trans h ?_)
      simp only [push]
      rw [List.length_cons]
      omega

end Reader

theorem Pattern.read_words {d : Dialect} {limits : CompileLimits} {ws : List (List Char × Leaf)}
    (hws : ∀ w ∈ ws, Reader.Takes d limits w.1 w.2) :
    Pattern.read d limits (ws.flatMap Prod.fst) = .ok (.ofLeaves (ws.map Prod.snd)) ∨
      limits.instructions ≤ ws.length ∧
        Outgrown (Pattern.read d limits (ws.flatMap Prod.fst)) := by
  have h := @Reader.readAll_words d limits Reader.start 0 rfl rfl rfl ws hws _ (Nat.le_refl _)
  rwa [Reader.start, Nat.zero_add] at h

theorem Pattern.ofLeaves_chars (cs : List Char) : ofLeaves (cs.map Leaf.char) = chars cs .done := by
  rw [ofLeaves, List.foldr_map]
  rfl

theorem Pattern.read_quote (d : Dialect) (limits : CompileLimits) (cs : List Char) :
    Pattern.read d limits (cs.flatMap d.quote) = .ok (.chars cs .done) ∨
      limits.instructions ≤ cs.length ∧ Outgrown (Pattern.read d limits (cs.flatMap d.quote)) := by
  have hwords := @read_words d limits (cs.map fun c => (d.quote c, .char c)) (by
    simp only [List.forall_mem_map]
    exact fun c _ => Reader.takes_quote d limits c)
  rw [List.flatMap_map, List.map_map, List.length_map] at hwords
  rw [← ofLeaves_chars]
  exact hwords

/-- Whether `x` stands for the character `c` of a text, where only the case of ASCII letters can be
ignored. -/
def Options.Matches (o : Options) (c x : Char) : Prop :=
  if o.ignoreCase then x.toLower = c.toLower else x = c

theorem Target.spells_iff_matches {t : Target} (hl : t.locale = .posix) {c x : Char} :
    t.spells c x = true ↔ t.options.Matches c x := by
  rw [Matcher.spells_iff, hl, Options.Matches]
  cases t.options.ignoreCase with
  | false => simp
  | true => simp [Locale.same_letter_iff]

theorem Options.Matches.utf8Size_eq {o : Options} {c x : Char} (h : o.Matches c x) :
    x.utf8Size = c.utf8Size := by
  unfold Options.Matches at h
  split at h
  · rw [← utf8Size_toLower x, h, utf8Size_toLower]
  · rw [h]

theorem byteLength_of_matches {o : Options} {cs ds : List Char}
    (h : List.Forall₂ o.Matches cs ds) : byteLength ds = byteLength cs := by
  induction h with
  | nil => rfl
  | cons hx _ ih => rw [byteLength, byteLength, ih, hx.utf8Size_eq]

/-- The text `cs` stands at `pos`, up to the case of ASCII letters if it is ignored. -/
def Subject.Contains (s : Subject) (o : Options) (cs : List Char) (pos : Nat) : Prop :=
  ∃ ds, s.Spells pos (pos + byteLength cs) ds ∧ List.Forall₂ o.Matches cs ds

namespace Subject

variable {s : Subject} {o : Options} {cs : List Char} {pos next : Nat} {t : Target}

theorem Contains.isBoundary (h : s.Contains o cs pos) : s.isBoundary pos = true := by
  obtain ⟨ds, hspells, -⟩ := h
  exact hspells.isBoundary

theorem contains_nil : s.Contains o [] pos ↔ s.isBoundary pos = true := by
  refine ⟨Contains.isBoundary, fun h => ⟨[], ?_, .nil⟩⟩
  exact spells_nil.mpr ⟨h, rfl⟩

theorem acceptAll_spells_iff (hl : t.locale = .posix) (hpos : s.isBoundary pos = true) :
    s.acceptAll (cs.map t.spells) pos = some next ↔
      s.Contains t.options cs pos ∧ pos + byteLength cs = next := by
  rw [acceptAll_iff hpos]
  simp only [List.forall₂_map_left_iff, Target.spells_iff_matches hl]
  constructor
  · rintro ⟨ds, hspells, hds⟩
    obtain ⟨xs, ys, -, -, hnext⟩ := id hspells
    rw [byteLength_of_matches hds] at hnext
    exact ⟨⟨ds, hnext ▸ hspells, hds⟩, hnext⟩
  · rintro ⟨⟨ds, hspells, hds⟩, rfl⟩
    exact ⟨ds, hspells, hds⟩

end Subject

namespace Matcher

variable {m : Matcher} {t : Target} {cs : List Char} {pos start : Nat}

theorem found_chars (m : Matcher) (t : Target) (cs : List Char) (pos : Nat) :
    m.found t (.chars cs .done) pos = (m.subject.acceptAll (cs.map t.spells) pos).map fun next =>
      ⟨next, (m.startSlots pos).close 0 next⟩ := by
  have hsingle : (Pattern.chars cs .done).afterBar 1 = none := by
    rw [Pattern.afterBar_chars]
    rfl
  unfold found seekAlts
  rw [seekLater_of_none hsingle, seek_chars]
  exact Option.map_eq_bind.symm

theorem found_chars_eq_some_iff (hl : t.locale = .posix) (hpos : m.subject.isBoundary pos = true)
    {o : Outcome} : m.found t (.chars cs .done) pos = some o ↔ m.subject.Contains t.options cs pos ∧
      o = ⟨pos + byteLength cs, (m.startSlots pos).close 0 (pos + byteLength cs)⟩ := by
  rw [found_chars, Option.map_eq_some_iff]
  simp only [Subject.acceptAll_spells_iff hl hpos]
  constructor
  · rintro ⟨next, ⟨hcontains, rfl⟩, rfl⟩
    exact ⟨hcontains, rfl⟩
  · rintro ⟨hcontains, rfl⟩
    exact ⟨_, ⟨hcontains, rfl⟩, rfl⟩

theorem not_contains_of_found (hl : t.locale = .posix) (hpos : m.subject.isBoundary pos = true)
    (h : m.found t (.chars cs .done) pos = none) : ¬m.subject.Contains t.options cs pos := by
  intro hcontains
  cases h.symm.trans ((found_chars_eq_some_iff hl hpos).mpr ⟨hcontains, rfl⟩)

theorem report_chars (hm : m.program = .ofPattern t (.chars cs .done)) (capture next : Nat)
    (hle : pos ≤ next) :
    Captures.ofSlots ((m.startSlots pos).close 0 next) (m.captureLimit capture) =
      ⟨[some ⟨pos, next⟩]⟩ := by
  have hsize : (m.startSlots pos).size = 0 + 1 := by
    rw [size_startSlots, hm, Program.size_groups_ofPattern, Pattern.groupCount_chars]
    rfl
  have hspans := @spans_ofSlots ⟨next, m.startSlots pos⟩ _ pos 0 _ hsize (slot_startSlots hm pos)
    rfl hle (fun _ _ => rfl) (m.captureLimit capture)
  rw [List.take_of_length_le (Nat.le_max_right _ 1)] at hspans
  exact congrArg Captures.mk hspans

end Matcher

namespace Regex

variable {r : Regex} {t : Target} {u : Subject} {cs : List Char}

theorem find_chars (hr : r.program = .ofPattern t (.chars cs .done)) (hl : t.locale = .posix)
    (hconnected : r.program.Connected) (h : WithinLimits (r.find u)) :
    (∃ i, u.Contains t.options cs i ∧ (∀ j < i, ¬u.Contains t.options cs j) ∧
      r.find u = .ok (some ⟨u, ⟨[some ⟨i, i + byteLength cs⟩]⟩⟩)) ∨
    (∀ i, ¬u.Contains t.options cs i) ∧ r.find u = .ok none := by
  let m : Matcher := r.matcher u {}
  have hm : m.program = .ofPattern t (.chars cs .done) := hr
  rw [find, findAt_eq_map] at h
  have hrun := Matcher.execute_eq_firstFound hm hconnected h.of_map
  rw [find, findAt_eq_map, hrun]
  cases hfound : m.firstFound t (.chars cs .done) 0 with
  | none =>
    refine Or.inr ⟨fun i hi => ?_, rfl⟩
    exact Matcher.not_contains_of_found hl hi.isBoundary
      (Matcher.found_of_firstFound_none hfound (Nat.zero_le i) hi.isBoundary) hi
  | some o =>
    obtain ⟨i, -, hboundary, hi, hbefore⟩ := Matcher.exists_of_firstFound hfound
    obtain ⟨hcontains, rfl⟩ := (Matcher.found_chars_eq_some_iff hl hboundary).mp hi
    refine Or.inl ⟨i, hcontains, fun j hj hcontains => ?_, ?_⟩
    · exact Matcher.not_contains_of_found hl hcontains.isBoundary
        (hbefore j (Nat.zero_le j) hj hcontains.isBoundary) hcontains
    · simp only [Matcher.report, Option.map_some, Except.map]
      rw [Matcher.report_chars hm _ _ (Nat.le_add_right i (byteLength cs))]

/-- A quoted text is a pattern unless it is too large, and within the limits of a search its
leftmost place in the subject is found, or none if there is none. The empty text is found at the
start. -/
theorem find_quoted (o : Options) (compileLimits : CompileLimits) (limits : SearchLimits)
    (cs : List Char) :
    (∃ r, compile o .posix (.ofList (cs.flatMap o.dialect.quote)) compileLimits limits = .ok r ∧
      ∀ u : Subject, WithinLimits (r.find u) →
        ((∃ i, u.Contains o cs i ∧ (∀ j < i, ¬u.Contains o cs j) ∧
            r.find u = .ok (some ⟨u, ⟨[some ⟨i, i + byteLength cs⟩]⟩⟩)) ∨
          (∀ i, ¬u.Contains o cs i) ∧ r.find u = .ok none) ∧
        (cs = [] → r.find u = .ok (some ⟨u, ⟨[some ⟨0, 0⟩]⟩⟩))) ∨
    compileLimits.instructions ≤ cs.length ∧
      Outgrown (compile o .posix (.ofList (cs.flatMap o.dialect.quote)) compileLimits limits) := by
  unfold compile
  rw [String.toList_ofList]
  obtain hread | ⟨hlimit, offset, hread⟩ := Pattern.read_quote o.dialect compileLimits cs
  · have hprogram := Program.compile_of_read hread .posix
    rw [hprogram]
    refine Or.inl ⟨_, rfl, fun u hu => ?_⟩
    have hfind := find_chars rfl rfl (Program.connected_of_compile hprogram) hu
    refine ⟨hfind, ?_⟩
    rintro rfl
    have hstart : u.Contains o [] 0 :=
      Subject.contains_nil.mpr (Subject.isBoundary_iff.mpr ⟨[], u.chars, rfl, rfl⟩)
    obtain ⟨i, -, hbefore, hi⟩ | ⟨hnone, -⟩ := hfind
    · obtain rfl : i = 0 := Nat.eq_zero_of_not_pos fun hpos => hbefore 0 hpos hstart
      exact hi
    · exact absurd hstart (hnone 0)
  · rw [Program.compile_eq_error_iff.mpr hread]
    exact Or.inr ⟨hlimit, offset, rfl⟩

def uncasedExtended : Options := { dialect := .extended, ignoreCase := true }

/-- In `éA.` the text `a.` is found without regard to case behind the two bytes of `é`, and the
empty text at the start. -/
theorem find_quoted_dotted :
    (∃ r, compile uncasedExtended .posix (.ofList ['a', '\\', '.']) = .ok r ∧
      WithinLimits (r.find (.ofList ['é', 'A', '.'])) ∧
      r.find (.ofList ['é', 'A', '.']) = .ok (some ⟨.ofList ['é', 'A', '.'], ⟨[some ⟨2, 4⟩]⟩⟩)) ∧
    ∃ r, compile uncasedExtended .posix (.ofList []) = .ok r ∧
      WithinLimits (r.find (.ofList ['é', 'A', '.'])) ∧
      r.find (.ofList ['é', 'A', '.']) = .ok (some ⟨.ofList ['é', 'A', '.'], ⟨[some ⟨0, 0⟩]⟩⟩) := by
  constructor
  · obtain ⟨r, hr, hfind⟩ | ⟨hlimit, -⟩ := find_quoted uncasedExtended {} {} ['a', '.']
    · have hrun : (r.find (.ofList ['é', 'A', '.'])).map (Option.map Match.captures) =
          .ok (some ⟨[some ⟨2, 4⟩]⟩) := by
        cases hr
        decide +kernel
      have hwithin : WithinLimits (r.find (.ofList ['é', 'A', '.'])) :=
        .of_map (.of_isOk (congrArg Except.isOk hrun))
      refine ⟨r, hr, hwithin, ?_⟩
      obtain ⟨⟨i, -, -, hi⟩ | ⟨-, hnone⟩, -⟩ := hfind (.ofList ['é', 'A', '.']) hwithin
      · rw [hi] at hrun
        cases hrun
        exact hi
      · rw [hnone] at hrun
        cases hrun
    · exact absurd hlimit (by decide)
  · obtain ⟨r, hr, hfind⟩ | ⟨hlimit, -⟩ := find_quoted uncasedExtended {} {} []
    · have hwithin : WithinLimits (r.find (.ofList ['é', 'A', '.'])) := by
        refine .of_map (.of_isOk ?_) (f := Option.map Match.captures)
        cases hr
        decide +kernel
      exact ⟨r, hr, hwithin, (hfind _ hwithin).2 rfl⟩
    · exact absurd hlimit (by decide)

end Regex

end PosixRegex
