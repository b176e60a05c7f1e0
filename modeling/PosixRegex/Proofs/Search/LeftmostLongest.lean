import PosixRegex.Proofs.Pattern.Scopes
import PosixRegex.Proofs.Search.Admission
import PosixRegex.Proofs.Search.Completeness
import PosixRegex.Proofs.Search.Scan

namespace PosixRegex

namespace Matcher

variable {m : Matcher} {t : Target} {p : Pattern} {limits : SearchLimits} {start capture : Nat}
  {caps : Captures}

theorem play_accept_place {stop : Nat} {s : Place}
    (hi : m.program.insts[stop]? = some (.ofAtom .accept)) (hgroups : 0 < m.program.groups.size)
    (hs : m.Fits s) : m.play (s.thread stop) = some (some ⟨s.pos, s.slots.close 0 s.pos⟩) := by
  have hslot := Array.getElem?_eq_getElem (show 0 < s.slots.size by rw [hs.size_eq]; exact hgroups)
  exact play_accept (t := s.thread stop) hi hslot

theorem ascends_accept {stop : Nat} (hi : m.program.insts[stop]? = some (.ofAtom .accept))
    (hgroups : 0 < m.program.groups.size) : m.Ascends stop := by
  refine ⟨fun hs => ⟨_, play_accept_place hi hgroups hs⟩,
    fun _ hs' _ _ => ⟨_, play_accept_place hi hgroups hs'⟩, ?_⟩
  intro s s' o o' hs hs' hpos ho ho'
  rw [play_accept_place hi hgroups hs] at ho
  rw [play_accept_place hi hgroups hs'] at ho'
  cases ho
  cases ho'
  exact hpos

theorem trails_accept {stop : Nat} (hi : m.program.insts[stop]? = some (.ofAtom .accept))
    (hgroups : 0 < m.program.groups.size) : m.Trails stop fun _ => False := by
  intro s hs
  refine ⟨_, play_accept_place hi hgroups hs, fun o ho => ?_⟩
  cases ho
  exact .refl

theorem fits_startPlace {pos : Nat} (h : m.subject.isBoundary pos = true) :
    m.Fits (m.startPlace pos) :=
  ⟨size_startSlots m pos, h⟩

theorem not_walk_of_search (hm : m.program = .ofPattern t p) {fuel pos : Nat}
    (h : (m.search limits fuel pos).result = .ok none) (s : Place) :
    ¬m.Walk t (.alts p 1) (m.startPlace pos) s := by
  intro hw
  obtain ⟨stop, result, haccept, hplay, hf⟩ := play_start hm pos
  have hend := play_of_walk hm haccept hw
  rw [hf.complete (eq_of_search hm h hplay) hw] at hend
  cases hend

theorem le_stop_of_search (hm : m.program = .ofPattern t p) (hl : m.locale = t.locale)
    (hproper : p.Proper [] 1) (htidy : p.Tidy t.options t.locale true fun _ => False)
    {fuel pos : Nat} {o : Outcome} (h : (m.search limits fuel pos).result = .ok (some o))
    (hpos : m.subject.isBoundary pos = true) {s : Place}
    (hw : m.Walk t (.alts p 1) (m.startPlace pos) s) : s.pos ≤ o.stop := by
  obtain ⟨stop, result, haccept, hplay, hf⟩ := play_start hm pos
  have hgroups : 0 < m.program.groups.size := by
    rw [hm, Program.size_groups_ofPattern]
    exact Nat.succ_pos _
  have hclear : m.Clear t p 1 stop := ⟨suits_ofPattern hm hl, ⟨[], hproper⟩, true, _, htidy,
    fun _ => ascends_accept haccept hgroups, trails_accept haccept hgroups⟩
  exact hf.longest ⟨fits_startPlace hpos, hclear⟩ (eq_of_search hm h hplay) hw
    (play_of_walk hm haccept hw)

theorem whole_ofSlots (hm : m.program = .ofPattern t p) {pos limit : Nat} {s : Place}
    (hw : m.Walk t (.alts p 1) (m.startPlace pos) s) :
    (Captures.ofSlots (s.slots.close 0 s.pos) limit).whole = ⟨pos, s.pos⟩ := by
  have hsize := size_slots_of_walk hm hw
  have hslot : s.slots[0]? = some ⟨0, some pos, none⟩ :=
    (hw.slot_eq (Or.inl Nat.one_pos)).trans (slot_startSlots hm pos)
  exact whole_of_spans (spans_ofSlots hsize hslot rfl hw.bounds.1 (fun _ _ => rfl) limit)

theorem exists_walk_of_execute (hm : m.program = .ofPattern t p)
    (h : m.execute limits start capture = .ok (some caps)) :
    ∃ slots, start ≤ caps.whole.start ∧ m.subject.isBoundary caps.whole.start = true ∧
      m.Walk t (.alts p 1) (m.startPlace caps.whole.start) ⟨caps.whole.stop, slots⟩ := by
  obtain ⟨i, fuel, o, hi, hadmits, ho, rfl, -⟩ := scan_some h
  obtain ⟨s, hw, rfl⟩ := search_some hm ho
  rw [whole_ofSlots hm hw]
  exact ⟨s.slots, hi, isBoundary_of_admits hadmits, hw⟩

theorem not_walk_before (hm : m.program = .ofPattern t p)
    (h : m.execute limits start capture = .ok (some caps)) {b : Nat} (hstart : start ≤ b)
    (hb : b < caps.whole.start) (hboundary : m.subject.isBoundary b = true) (s : Place) :
    ¬m.Walk t (.alts p 1) (m.startPlace b) s := by
  intro hw
  obtain ⟨i, fuel, o, -, -, ho, rfl, hbefore⟩ := scan_some h
  obtain ⟨s', hw', rfl⟩ := search_some hm ho
  rw [whole_ofSlots hm hw'] at hb
  have hadmits : m.admits b = true := admits_of_walk hm hw hboundary
  obtain ⟨fuel', hnone⟩ := hbefore b hstart hb hadmits
  exact not_walk_of_search hm hnone s hw

theorem le_stop_of_walk (hm : m.program = .ofPattern t p) (hl : m.locale = t.locale)
    (hproper : p.Proper [] 1) (htidy : p.Tidy t.options t.locale true fun _ => False)
    (h : m.execute limits start capture = .ok (some caps)) {s : Place}
    (hw : m.Walk t (.alts p 1) (m.startPlace caps.whole.start) s) : s.pos ≤ caps.whole.stop := by
  obtain ⟨i, fuel, o, -, hadmits, ho, rfl, -⟩ := scan_some h
  obtain ⟨s', hw', rfl⟩ := search_some hm ho
  rw [whole_ofSlots hm hw'] at hw ⊢
  exact le_stop_of_search hm hl hproper htidy ho (isBoundary_of_admits hadmits) hw

theorem walk_of_derives (hm : m.program = .ofPattern t p) (hl : m.locale = t.locale)
    (hproper : p.Proper [] 1) (horderly : p.isOrderly p.refs 1 = true) {b : Nat} {σ : Stage}
    (hb : m.subject.isBoundary b = true)
    (hd : Derives (m.reading t) (.alts p 1) ⟨b, fun _ => none⟩ σ) :
    ∃ slots, m.Walk t (.alts p 1) (m.startPlace b) ⟨σ.pos, slots⟩ := by
  have hanswers := (answers_of_isOrderly (suits_ofPattern hm hl) p hproper
    (List.Subset.refl p.refs) horderly).2
  have hsize : (Part.alts p 1).bound ≤ (m.startPlace b).slots.size := by
    rw [startPlace, size_startSlots, hm, Program.size_groups_ofPattern, Part.bound]
    omega
  obtain ⟨slots, hw, -⟩ := hanswers hd hsize (tallies_start hb _)
  exact ⟨slots, hw⟩

/-- The pattern describes no text that starts before the match. If it is tidy it describes none that
starts with the match and ends behind it. -/
theorem leftmost_longest {o : Options} {l : Locale} {compileLimits : CompileLimits}
    {text : List Char} (hp : Pattern.read o.dialect compileLimits text = .ok p)
    (hc : Program.compile o l compileLimits text = .ok m.program) (hl : m.locale = l)
    (horderly : p.isOrderly p.refs 1 = true)
    (h : m.execute limits start capture = .ok (some caps)) :
    (∀ b, start ≤ b → b < caps.whole.start → m.subject.isBoundary b = true → ∀ σ,
      ¬Derives (m.reading ⟨o, l, compileLimits.run⟩) (.alts p 1) ⟨b, fun _ => none⟩ σ) ∧
    ((p.Tidy o l true fun _ => False) → ∀ σ,
      Derives (m.reading ⟨o, l, compileLimits.run⟩) (.alts p 1)
        ⟨caps.whole.start, fun _ => none⟩ σ → σ.pos ≤ caps.whole.stop) := by
  obtain ⟨q, hq, hm⟩ := Program.exists_ofPattern hc
  obtain rfl : p = q := Except.ok.inj (hp.symm.trans hq)
  have hproper := Pattern.proper_of_read hp
  refine ⟨fun b hstart hb hboundary σ hd => ?_, fun htidy σ hd => ?_⟩
  · obtain ⟨slots, hw⟩ := walk_of_derives hm hl hproper horderly hboundary hd
    exact not_walk_before hm h hstart hb hboundary _ hw
  · have hboundary : m.subject.isBoundary caps.whole.start = true := by
      obtain ⟨i, fuel, o, -, hadmits, ho, rfl, -⟩ := scan_some h
      obtain ⟨s', hw', rfl⟩ := search_some hm ho
      rw [whole_ofSlots hm hw']
      exact isBoundary_of_admits hadmits
    obtain ⟨slots, hw⟩ := walk_of_derives hm hl hproper horderly hboundary hd
    exact le_stop_of_walk hm hl hproper htidy h hw

def forked : Pattern :=
  .group (.leaf (.char 'a') .star (.bar (.leaf (.char 'a') .once (.leaf (.char 'b') .once .done))))
    .once (.group (.leaf (.char 'c') .once (.bar (.leaf (.char 'b') .once
      (.leaf (.char 'c') .once (.leaf (.char 'd') .once .done))))) .once .done)

def forkedIn (cs : List Char) : Matcher :=
  ⟨.ofPattern ⟨{ dialect := .extended }, .posix, 255⟩ forked, .posix, .ofList cs, {}⟩

theorem tidy_forked : forked.Tidy { dialect := .extended } .posix true fun _ => False := by
  refine ⟨⟨Or.inr (Or.inr ?_), Or.inl rfl, Or.inl rfl, trivial⟩, Or.inl ⟨rfl, Nat.one_pos⟩,
    ⟨Or.inl rfl, Or.inl rfl, Or.inl rfl, Or.inl rfl, trivial⟩, Or.inl ⟨rfl, Nat.one_pos⟩, trivial⟩
  -- Behind `a*` comes the second group, which starts with one of the other letters.
  rintro c (rfl | ⟨hcase, -⟩)
  · simp [Pattern.Leads, Pattern.Starts, Leaf.Starts, Leaf.Admits, Repetition.min, Leaf.isBackRef,
      Pattern.isNullable, Repetition.belowMax, Repetition.max?]
  · cases hcase

theorem leftmost_longest_forked :
    (∀ b, 0 ≤ b → b < 1 → (forkedIn ['x', 'a', 'b', 'c', 'd']).subject.isBoundary b = true → ∀ σ,
      ¬Derives
        ((forkedIn ['x', 'a', 'b', 'c', 'd']).reading ⟨{ dialect := .extended }, .posix, 255⟩)
        (.alts forked 1) ⟨b, fun _ => none⟩ σ) ∧
    ∀ σ, Derives
      ((forkedIn ['x', 'a', 'b', 'c', 'd']).reading ⟨{ dialect := .extended }, .posix, 255⟩)
      (.alts forked 1) ⟨1, fun _ => none⟩ σ → σ.pos ≤ 5 := by
  have h := leftmost_longest (m := forkedIn ['x', 'a', 'b', 'c', 'd'])
    (o := { dialect := .extended }) (l := .posix)
    (show Pattern.read .extended {}
        ['(', 'a', '*', '|', 'a', 'b', ')', '(', 'c', '|', 'b', 'c', 'd', ')']
      = .ok forked by decide)
    (show Program.compile { dialect := .extended } .posix {} _ = .ok _ by decide) rfl (by decide)
    (show (forkedIn ['x', 'a', 'b', 'c', 'd']).execute {} 0 1 = .ok (some ⟨[some ⟨1, 5⟩]⟩) by
      decide +kernel)
  exact ⟨h.1, h.2 tidy_forked⟩

/-- The tree of `a?(ab)?`. -/
def eager : Pattern :=
  .leaf (.char 'a') .optional
    (.group (.leaf (.char 'a') .once (.leaf (.char 'b') .once .done)) .optional .done)

def eagerIn (cs : List Char) : Matcher :=
  ⟨.ofPattern ⟨{ dialect := .extended }, .posix, 255⟩ eager, .posix, .ofList cs, {}⟩

/-- The tree of `((^|a){2}b|b)`. -/
def idle : Pattern :=
  .group (.group (.assert .lineStart (.bar (.leaf (.char 'a') .once .done))) (.between 2 2)
    (.leaf (.char 'b') .once (.bar (.leaf (.char 'b') .once .done)))) .once .done

def idleIn (cs : List Char) : Matcher :=
  ⟨.ofPattern ⟨{ dialect := .extended }, .posix, 255⟩ idle, .posix, .ofList cs, {}⟩

/-- Neither condition can be left out. The repetition that is tried first is not given up for a
longer match, and no iteration follows an empty one. -/
theorem not_leftmost_longest :
    (Program.compile { dialect := .extended } .posix {} ['a', '?', '(', 'a', 'b', ')', '?'] =
        .ok (eagerIn ['a', 'b']).program ∧
      (eagerIn ['a', 'b']).execute {} 0 1 = .ok (some ⟨[some ⟨0, 1⟩]⟩) ∧
      ∃ σ, Derives ((eagerIn ['a', 'b']).reading ⟨{ dialect := .extended }, .posix, 255⟩)
        (.alts eager 1) ⟨0, fun _ => none⟩ σ ∧ 1 < σ.pos) ∧
    Program.compile { dialect := .extended } .posix {}
        ['(', '(', '^', '|', 'a', ')', '\x7b', '2', '\x7d', 'b', '|', 'b', ')'] =
        .ok (idleIn ['a', 'b']).program ∧
      (idleIn ['a', 'b']).execute {} 0 1 = .ok (some ⟨[some ⟨1, 2⟩]⟩) ∧
      ∃ σ, Derives ((idleIn ['a', 'b']).reading ⟨{ dialect := .extended }, .posix, 255⟩)
        (.alts idle 1) ⟨0, fun _ => none⟩ σ := by
  refine ⟨⟨by decide, by decide +kernel, ⟨2, _⟩, .here (.leaf ⟨Nat.zero_le 0, by simp⟩ .zero (.group
    (.last (.here (.char ⟨[], ['b'], rfl, rfl, rfl⟩ (.char ⟨['a'], [], rfl, rfl, rfl⟩ .done)))
      rfl (Or.inl (Nat.zero_le 1))) .done)), Nat.one_lt_two⟩, by decide, by decide +kernel, ?_⟩
  let r : Reading := (idleIn ['a', 'b']).reading ⟨{ dialect := .extended }, .posix, 255⟩
  have ha : ∀ held, Derives r (.alts (.leaf (.char 'a') .once .done) 3) ⟨0, held⟩ ⟨1, held⟩ :=
    fun _ => .here (.char ⟨[], ['b'], rfl, rfl, rfl⟩ .done)
  have hb : ∀ held, Derives r (.seq (.leaf (.char 'b') .once (.bar (.leaf (.char 'b') .once .done)))
      3) ⟨1, held⟩ ⟨2, held⟩ :=
    fun _ => .char ⟨['a'], [], rfl, rfl, rfl⟩ .bar
  have hstart : r.Holds .lineStart 0 := ⟨[], ['a', 'b'], rfl, rfl, rfl⟩
  exact ⟨_, .here (.group (.last (.here (.group (.again (.here (.assert hstart .bar)) rfl
    (.last (.later rfl (ha _)) rfl (Or.inl (Nat.le_refl 2)))) (hb _))) rfl (Or.inl (Nat.le_refl 1)))
    .done)⟩

end Matcher

end PosixRegex
