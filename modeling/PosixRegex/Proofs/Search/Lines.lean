import PosixRegex.Proofs.Line
import PosixRegex.Proofs.Locale
import PosixRegex.Proofs.Program.Newline
import PosixRegex.Proofs.Search.FirstMatch
import PosixRegex.Regex

namespace PosixRegex

def Span.shift (start : Nat) (s : Span) : Span := ⟨start + s.start, start + s.stop⟩

def Slot.shift (start : Nat) (s : Slot) : Slot :=
  ⟨s.count, s.start.map (start + ·), s.stop.map (start + ·)⟩

theorem Slot.span?_shift (start : Nat) (s : Slot) :
    (s.shift start).span? = s.span?.map (Span.shift start) := by
  obtain ⟨count, _ | a, _ | b⟩ := s
  · rfl
  · rfl
  · rfl
  · simp only [shift, span?, Option.map_some, Nat.add_le_add_iff_left]
    split <;> rfl

theorem Slot.stop_of_span? {slot : Slot} {span : Span} (h : slot.span? = some span) :
    slot.stop = some span.stop := by
  unfold span? at h
  split at h
  · rename_i hstop
    split at h
    · cases h
      exact hstop
    · cases h
  · cases h

namespace Slots

def shift (start : Nat) (slots : Slots) : Slots := slots.map (Slot.shift start)

theorem getElem?_shift (start : Nat) (slots : Slots) (g : Nat) :
    (slots.shift start)[g]? = slots[g]?.map (Slot.shift start) := by
  rw [shift, Array.getElem?_map]

theorem shift_modify {start g : Nat} {slots : Slots} {f f' : Slot → Slot}
    (hf : ∀ slot, f' (slot.shift start) = (f slot).shift start) :
    Array.modify (slots.shift start) g f' = shift start (Array.modify slots g f) := by
  apply Array.ext_getElem?
  intro j
  rw [Array.getElem?_modify, getElem?_shift, getElem?_shift, Array.getElem?_modify]
  split
  · cases slots[j]? with
    | none => rfl
    | some slot => exact congrArg some (hf slot)
  · rfl

theorem shift_replicate (start n : Nat) :
    shift start (Array.replicate n {}) = Array.replicate n {} := by
  rw [shift, Array.map_replicate]
  rfl

theorem update_shift {f : Nat → Slot → Slot} (hf : f ∈ updates) (start pos : Nat) (slot : Slot) :
    f (start + pos) (slot.shift start) = (f pos slot).shift start := by
  simp only [updates, List.mem_cons, List.not_mem_nil, or_false] at hf
  rcases hf with rfl | rfl | rfl | rfl | rfl <;> rfl

end Slots

def Outcome.shift (start : Nat) (o : Outcome) : Outcome := ⟨start + o.stop, o.slots.shift start⟩

def Captures.shift (start : Nat) (c : Captures) : Captures :=
  ⟨c.spans.map (Option.map (Span.shift start))⟩

theorem Captures.ofSlots_shift (start : Nat) (slots : Slots) (limit : Nat) :
    ofSlots (slots.shift start) limit = (ofSlots slots limit).shift start := by
  have hspan : Slot.span? ∘ Slot.shift start = Option.map (Span.shift start) ∘ Slot.span? :=
    funext (Slot.span?_shift start)
  rw [ofSlots, ofSlots, shift, Slots.shift, Array.toList_map, ← List.map_take, List.map_map, List.map_map,
    hspan]

theorem findSome?_congr {α β : Type} {f g : α → Option β} {xs : List α}
    (h : ∀ x ∈ xs, f x = g x) : xs.findSome? f = xs.findSome? g := by
  induction xs with
  | nil => rfl
  | cons x xs ih =>
    obtain ⟨hx, hxs⟩ := List.forall_mem_cons.mp h
    rw [List.findSome?_cons, List.findSome?_cons, hx, ih hxs]

namespace Subject

theorem boundaries_add (s : Subject) (pos a b : Nat) :
    s.boundaries pos (a + b) = s.boundaries pos a ++ s.boundaries (pos + a) b := by
  rw [boundaries, ← List.range'_append_1, List.filter_append]
  rfl

theorem HasLine.boundaries_eq {s : Subject} {before line after : List Char}
    (h : s.HasLine before line after) :
    s.boundaries (byteLength before) ((ofList line).size + 1) =
      ((ofList line).boundaries 0 ((ofList line).size + 1)).map (byteLength before + ·) := by
  have hshift : List.range' (byteLength before) ((ofList line).size + 1) =
      (List.range' 0 ((ofList line).size + 1)).map (byteLength before + ·) := by
    rw [List.map_add_range']
    rfl
  rw [boundaries, boundaries, hshift, List.filter_map]
  congr 1
  apply List.filter_congr
  intro pos hpos
  rw [List.mem_range'_1] at hpos
  exact h.isBoundary_of_le (by omega)

theorem findSome?_boundaries {α : Type} (s : Subject) (f : Nat → Option α) (text : List Char)
    (start : Nat) :
    (s.boundaries start (byteLength text + 1)).findSome? f =
      (linesFrom start (text.splitOn '\n')).findSome? fun line =>
        (s.boundaries line.start ((ofList line.chars).size + 1)).findSome? f := by
  induction text using line_induction generalizing start with
  | last cs hcs =>
    rw [linesFrom_last hcs, List.findSome?_singleton, size_eq]
    rfl
  | line cs rest hcs ih =>
    have hlength : byteLength (cs ++ '\n' :: rest) + 1 =
        byteLength cs + 1 + (byteLength rest + 1) := by
      rw [byteLength_append, byteLength, show '\n'.utf8Size = 1 from rfl]
      omega
    rw [linesFrom_cons hcs, hlength, boundaries_add, List.findSome?_append, ← Nat.add_assoc, ih,
      List.findSome?_cons, size_eq]
    simp only [ofList]
    cases (s.boundaries start (byteLength cs + 1)).findSome? f <;> rfl

end Subject

namespace Matcher

def onLine (m : Matcher) (line : List Char) : Matcher := { m with subject := .ofList line }

variable {m : Matcher} {t : Target} {p : Pattern} {before line after : List Char} {pos : Nat}

/-- A place in the subject and the same place in a line that starts at `start`. -/
structure Aligned (start size : Nat) (s s' : Place) : Prop where
  pos : s.pos = start + s'.pos
  slots : s.slots = s'.slots.shift start
  inside : s'.pos ≤ size
  within : s'.slots.Within size

theorem comparable_shift (start : Nat) : Comparable fun o o' => o = Outcome.shift start o' := by
  rintro o o' b b' rfl rfl
  exact Nat.add_lt_add_iff_left

theorem findsSame_accepted_shift (start size : Nat) :
    FindsSame (Aligned start size) (fun o o' => o = Outcome.shift start o') accepted accepted := by
  intro s s' hs
  refine .some ?_
  have hclose : Array.modify (s'.slots.shift start) 0 ({ · with stop := some (start + s'.pos) }) =
      Slots.shift start (Array.modify s'.slots 0 ({ · with stop := some s'.pos })) :=
    Slots.shift_modify fun slot => rfl
  rw [hs.pos, hs.slots]
  exact congrArg (Outcome.mk _) hclose

theorem aligned_startPlace (start : Nat) (hpos : pos ≤ (Subject.ofList line).size) :
    Aligned start (Subject.ofList line).size (m.startPlace (start + pos))
      ((m.onLine line).startPlace pos) := by
  refine ⟨rfl, ?_, hpos, ?_⟩
  · have hslots := Slots.shift_replicate start m.program.groups.size
    simp only [startPlace, startSlots, onLine]
    conv_lhs => rw [← hslots]
    exact Slots.shift_modify fun slot => rfl
  · intro g slot hslot stop hstop
    simp only [startPlace, startSlots, Array.getElem?_modify, Array.getElem?_replicate] at hslot
    grind

theorem repeats_newline {c : Char} (hc : c ≠ '\n') : m.repeats t c '\n' = false := by
  unfold repeats
  split
  · exact Locale.foldEq_newline hc
  · exact beq_false_of_ne hc.symm

section

variable (h : m.subject.HasLine before line after)

include h

theorem atLineStart_onLine (hflags : m.flags = {})
    (hn : m.program.flags.newlineSensitive = true) (hpos : pos ≤ (Subject.ofList line).size) :
    m.atLineStart (byteLength before + pos) = (m.onLine line).atLineStart pos := by
  unfold atLineStart
  simp only [onLine, hflags, hn, Bool.true_and, Bool.not_false]
  cases pos with
  | zero =>
    rw [Nat.add_zero, if_pos rfl]
    split
    · rfl
    · rename_i hne
      rw [h.charAt?_pred_eq_newline hne]
      rfl
  | succ k =>
    have hne : byteLength before + (k + 1) ≠ 0 := Nat.succ_ne_zero _
    rw [if_neg hne, if_neg (Nat.succ_ne_zero k), ← Nat.add_assoc, Nat.add_sub_cancel,
      Nat.add_sub_cancel, h.charAt?_of_lt hpos]

theorem atLineEnd_onLine (hflags : m.flags = {})
    (hn : m.program.flags.newlineSensitive = true) (hpos : pos ≤ (Subject.ofList line).size) :
    m.atLineEnd (byteLength before + pos) = (m.onLine line).atLineEnd pos := by
  unfold atLineEnd
  simp only [onLine, hflags, hn, Bool.true_and, Bool.not_false]
  rcases Nat.lt_or_eq_of_le hpos with hlt | rfl
  · have hsize := h.size_eq
    rw [if_neg (by omega), if_neg (by omega), h.charAt?_of_lt hlt]
  · rw [if_pos rfl]
    split
    · rfl
    · rename_i hne
      rw [h.charAt?_stop_eq_newline hne]
      rfl

theorem holds_onLine (hflags : m.flags = {})
    (hn : m.program.flags.newlineSensitive = true) (hpos : pos ≤ (Subject.ofList line).size)
    (what : Assertion) :
    m.holds what (byteLength before + pos) = (m.onLine line).holds what pos := by
  cases what with
  | lineStart => exact atLineStart_onLine h hflags hn hpos
  | lineEnd => exact atLineEnd_onLine h hflags hn hpos
  | word edge =>
    have hword := m.locale.isWord_newline
    simp only [holds, atWordEdge, h.any_charBefore?_of_le hword hpos,
      h.any_charAt?_of_le hword hpos]
    rfl

theorem captured?_onLine {slots : Slots} (hwithin : slots.Within (Subject.ofList line).size)
    (g : Nat) :
    m.captured? (slots.shift (byteLength before)) g = (m.onLine line).captured? slots g := by
  rw [captured?, captured?, Slots.getElem?_shift]
  cases hslot : slots[g]? with
  | none => rfl
  | some slot =>
    rw [Option.map_some, Option.bind_some, Option.bind_some, Slot.span?_shift]
    cases hspan : slot.span? with
    | none => rfl
    | some span =>
      have hstop := hwithin g slot hslot span.stop (Slot.stop_of_span? hspan)
      exact congrArg some (h.slice_of_le hstop)

theorem not_mem_of_captured? {slots : Slots} {g : Nat} {cs : List Char}
    (hcs : (m.onLine line).captured? slots g = some cs) : '\n' ∉ cs := by
  obtain ⟨span, -, rfl⟩ := Option.map_eq_some_iff.mp hcs
  exact fun hmem => h.plain (Subject.mem_of_mem_slice hmem)

theorem consume_onLine (ht : t.options.newlineSensitive = true) {what : Leaf}
    (hwhat : (t.consumer what).listsNewline m.locale = false) {slots : Slots}
    (hwithin : slots.Within (Subject.ofList line).size) (hpos : pos ≤ (Subject.ofList line).size) :
    m.consume (t.consumer what) (byteLength before + pos) (slots.shift (byteLength before)) =
      ((m.onLine line).consume (t.consumer what) pos slots).map (byteLength before + ·) := by
  cases what with
  | char c =>
    have hone := List.cons_ne_nil c []
    have hspells : t.spells c '\n' = false := (t.listsNewline_char m.locale c).symm.trans hwhat
    rw [Target.consumer, consume_literal m t hone, consume_literal (m.onLine line) t hone]
    exact h.acceptAll_of_le (List.forall_mem_singleton.mpr hspells) hpos
  | any =>
    simp only [Target.consumer, ht, if_true]
    exact h.accept_of_le rfl hpos
  | bracket b =>
    have hadmits := Bracket.admits_newline ht hwhat
    simp only [Target.consumer, Bracket.consumer] at hadmits ⊢
    split
    · rename_i hbytes
      rw [if_pos hbytes] at hadmits
      exact h.accept_of_le hadmits hpos
    · rename_i hbytes
      rw [if_neg hbytes] at hadmits
      exact h.accept_of_le hadmits hpos
  | backRef g =>
    rw [consume_backRef, consume_backRef, captured?_onLine h hwithin]
    cases hcs : (m.onLine line).captured? slots g with
    | none => rfl
    | some cs =>
      apply h.acceptAll_of_le _ hpos
      intro q hq
      obtain ⟨c, hc, rfl⟩ := List.mem_map.mp hq
      apply repeats_newline
      rintro rfl
      exact not_mem_of_captured? h hcs hc

theorem mirrors_onLine (hflags : m.flags = {}) (hn : m.program.flags.newlineSensitive = true)
    (ht : t.options.newlineSensitive = true) (bound : Nat) :
    Mirrors m (m.onLine line) t t (fun what => (t.consumer what).listsNewline m.locale = false) 0 1
      bound (Aligned (byteLength before) (Subject.ofList line).size) where
  lt_iff := by
    intro s s' mid mid' hs hmid
    rw [hs.pos, hmid.pos, Nat.add_lt_add_iff_left]
  inside := by
    intro s s' hs
    have hsize := h.size_eq
    have hinside := hs.inside
    have hpos := hs.pos
    refine iff_of_true ?_ hinside
    omega
  holds := by
    intro s s' hs what
    rw [hs.pos]
    exact holds_onLine h hflags hn hs.inside what
  consume := by
    intro s s' what hs hwhat
    rw [hs.pos, hs.slots, consume_onLine h ht hwhat hs.within hs.inside]
    cases hc : (m.onLine line).consume (t.consumer what) s'.pos s'.slots with
    | none => exact .none
    | some next =>
      have hbounds := consume_bounds hc
      have hnext : next ≤ (Subject.ofList line).size :=
        Nat.le_trans hbounds.2 (Nat.max_le.mpr ⟨hs.inside, Nat.le_refl _⟩)
      exact .some ⟨rfl, rfl, hnext, hs.within⟩
  update := by
    intro s s' g f hs hg hf
    refine ⟨hs.pos, ?_, hs.inside, hs.within.update hs.inside hf g⟩
    rw [hs.pos, hs.slots]
    exact Slots.shift_modify (Slots.update_shift hf _ _)

theorem found_onLine (hflags : m.flags = {}) (hn : m.program.flags.newlineSensitive = true)
    (ht : t.options.newlineSensitive = true)
    (hleaves : ∀ what ∈ p.leaves, (t.consumer what).listsNewline m.locale = false)
    (hpos : pos ≤ (Subject.ofList line).size) :
    m.found t p (byteLength before + pos) =
      ((m.onLine line).found t p pos).map (Outcome.shift (byteLength before)) :=
  eq_map_of_rel ((mirrors_onLine h hflags hn ht (1 + p.groupCount)).seekAlts (comparable_shift _) p
    hleaves ⟨Nat.le_refl 1, Nat.le_refl _⟩ (findsSame_accepted_shift _ _) (aligned_startPlace _ hpos))

end

section

variable (hflags : m.flags = {}) (hn : m.program.flags.newlineSensitive = true)
  (ht : t.options.newlineSensitive = true)
  (hleaves : ∀ what ∈ p.leaves, (t.consumer what).listsNewline m.locale = false)

include hflags hn ht hleaves

/-- What is found first in the subject is what is found first in the first line where anything is
found. -/
theorem firstFound_eq_findSome? :
    m.firstFound t p 0 = m.subject.lines.findSome? fun line =>
      ((m.onLine line.chars).firstFound t p 0).map (Outcome.shift line.start) := by
  rw [firstFound, Nat.sub_zero, Subject.size_eq, Subject.findSome?_boundaries]
  apply findSome?_congr
  intro line hline
  obtain ⟨before, after, h, hstart⟩ := Subject.exists_hasLine_of_mem_lines hline
  rw [← hstart, h.boundaries_eq, List.findSome?_map, firstFound, List.map_findSome?]
  apply findSome?_congr
  intro pos hpos
  have hle := (Subject.mem_boundaries.mp hpos).1.2
  exact found_onLine h hflags hn ht hleaves (by omega)

theorem report_eq_findSome? (capture : Nat) :
    m.report capture (m.firstFound t p 0) = m.subject.lines.findSome? fun line =>
      ((m.onLine line.chars).report capture ((m.onLine line.chars).firstFound t p 0)).map
        (Captures.shift line.start) := by
  rw [firstFound_eq_findSome? hflags hn ht hleaves, report, List.map_findSome?]
  apply findSome?_congr
  intro line _
  rw [Function.comp_apply, report, Option.map_map, Option.map_map]
  apply congrFun
  apply congrArg
  funext o
  exact Captures.ofSlots_shift line.start o.slots _

end

end Matcher

/-- The same match in a subject with a line that starts at `start`. -/
def Match.within (s : Subject) (start : Nat) (m : Match) : Match := ⟨s, m.captures.shift start⟩

namespace Regex

theorem find_eq_map (r : Regex) (s : Subject) :
    r.find s =
      ((r.matcher s {}).execute r.limits 0 r.allCaptures).map (Option.map (Match.mk s)) :=
  r.findAt_eq_map s 0 {}

/-- A search that is sensitive to newlines goes line by line: it finds the match of the first line
that has one, unless an instruction lists a newline. -/
theorem find_line_by_line {o : Options} {l : Locale} {text : String}
    {compileLimits : CompileLimits} {limits : SearchLimits} {r : Regex}
    (ho : o.newlineSensitive = true) (hr : compile o l text compileLimits limits = .ok r)
    (hinsts : ∀ i ∈ r.program.insts, i.listsNewline l = false) (s : Subject)
    (hlimit : WithinLimits (r.find s))
    (hlines : ∀ line ∈ s.lines, WithinLimits (r.find (.ofList line.chars))) :
    ∃ found : Subject.Line → Option Match,
      (∀ line ∈ s.lines, r.find (.ofList line.chars) = .ok (found line)) ∧
      r.find s = .ok (s.lines.findSome? fun line => (found line).map (.within s line.start)) := by
  obtain ⟨program, hprogram, hr⟩ := exists_of_bind_eq_ok hr
  cases hr
  have hconnected := Program.connected_of_compile hprogram
  obtain ⟨p, hp, rfl⟩ := Program.exists_ofPattern hprogram
  let t : Target := ⟨o, l, compileLimits.run⟩
  let r : Regex := ⟨.ofPattern t p, l, limits⟩
  let first (s : Subject) : Option Captures :=
    (r.matcher s {}).report r.allCaptures ((r.matcher s {}).firstFound t p 0)
  have hfind : ∀ s, WithinLimits (r.find s) → r.find s = .ok ((first s).map (Match.mk s)) := by
    intro s hs
    rw [find_eq_map] at hs ⊢
    rw [Matcher.execute_eq_firstFound rfl hconnected hs.of_map]
    rfl
  refine ⟨fun line => (first (.ofList line.chars)).map (Match.mk (.ofList line.chars)),
    fun line hline => hfind _ (hlines line hline), ?_⟩
  have hreport : first s = s.lines.findSome? fun line =>
      (first (.ofList line.chars)).map (Captures.shift line.start) :=
    Matcher.report_eq_findSome? rfl ho ho (Pattern.leaf_of_insts hinsts) _
  rw [hfind s hlimit, hreport, List.map_findSome?]
  apply congrArg
  apply findSome?_congr
  intro line _
  rw [Function.comp_apply, Option.map_map, Option.map_map]
  rfl

def framed : Regex :=
  ⟨.ofPattern ⟨{ dialect := .extended, newlineSensitive := true }, .posix, 255⟩
    (.assert .lineStart (.group (.leaf (.bracket ⟨true, [.char 'c']⟩) .once .done) .once
      (.leaf (.char 'c') .once (.assert .lineEnd .done)))), .posix, {}⟩

/-- The second line matches, and the first one does not. -/
theorem find_line_by_line_second :
    (framed.find (.ofList ['a', 'b', '\n', 'x', 'c'])).map (Option.map Match.captures) =
      .ok (some ⟨[some ⟨3, 5⟩, some ⟨3, 4⟩]⟩) := by
  have hprogram : Program.compile { dialect := .extended, newlineSensitive := true } .posix {}
      "^([^c])c$".toList = .ok framed.program := by decide +kernel
  have hr : compile { dialect := .extended, newlineSensitive := true } .posix "^([^c])c$" =
      .ok framed := by
    rw [compile, hprogram]
    rfl
  have hlines : (Subject.ofList ['a', 'b', '\n', 'x', 'c']).lines =
      [⟨0, ['a', 'b']⟩, ⟨3, ['x', 'c']⟩] := rfl
  have hok : ∀ line ∈ (Subject.ofList ['a', 'b', '\n', 'x', 'c']).lines,
      (framed.find (.ofList line.chars)).isOk = true := by decide +kernel
  obtain ⟨found, hfound, h⟩ := find_line_by_line rfl hr (by decide +kernel)
    (.ofList ['a', 'b', '\n', 'x', 'c']) (.of_isOk (by decide +kernel))
    fun line hline => .of_isOk (hok line hline)
  have hfirst : framed.find (.ofList ['a', 'b']) = .ok none := by
    rw [find_eq_map, show (framed.matcher _ {}).execute _ 0 _ = .ok none by decide +kernel]
    rfl
  have hsecond : framed.find (.ofList ['x', 'c']) =
      .ok (some ⟨.ofList ['x', 'c'], ⟨[some ⟨0, 2⟩, some ⟨0, 1⟩]⟩⟩) := by
    rw [find_eq_map, show (framed.matcher _ {}).execute _ 0 _ =
      .ok (some ⟨[some ⟨0, 2⟩, some ⟨0, 1⟩]⟩) by decide +kernel]
    rfl
  rw [hlines] at hfound h
  obtain ⟨hnone, hsome⟩ := List.forall_mem_cons.mp hfound
  have hnone := Except.ok.inj (hnone.symm.trans hfirst)
  have hsome := Except.ok.inj ((hsome _ List.mem_cons_self).symm.trans hsecond)
  rw [h, List.findSome?_cons, List.findSome?_singleton, hnone, hsome]
  rfl

end Regex

end PosixRegex
