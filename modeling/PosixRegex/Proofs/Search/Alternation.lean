import PosixRegex.Proofs.Pattern.Alternation
import PosixRegex.Proofs.Pattern.References
import PosixRegex.Proofs.Search.FirstMatch
import PosixRegex.Proofs.Search.LeftmostLongest
import PosixRegex.Proofs.Search.Mirror

namespace PosixRegex

def insertCopies {α : Type} (i count : Nat) (x : α) (xs : List α) : List α :=
  xs.take i ++ List.replicate count x ++ xs.drop i

section

variable {α β : Type} {i count : Nat} {x : α} {xs : List α}

theorem getElem?_insertCopies (h : i ≤ xs.length) (j : Nat) :
    (insertCopies i count x xs)[j]? =
      if j < i then xs[j]? else if j < i + count then some x else xs[j - count]? := by
  simp only [insertCopies, List.append_assoc, List.getElem?_append, List.length_take,
    List.length_replicate, List.getElem?_take, List.getElem?_replicate, List.getElem?_drop]
  grind

theorem map_insertCopies (f : α → β) :
    (insertCopies i count x xs).map f = insertCopies i count (f x) (xs.map f) := by
  simp [insertCopies]

theorem take_insertCopies_take (n : Nat) :
    (insertCopies i count x (xs.take n)).take n = (insertCopies i count x xs).take n := by
  apply List.ext_getElem?
  intro j
  simp only [insertCopies, List.append_assoc, List.getElem?_append, List.length_take,
    List.length_replicate, List.getElem?_take, List.getElem?_replicate, List.getElem?_drop]
  grind

end

namespace Slots

/-- Slots with `count` untouched ones put in at place `i`. -/
def widen (i count : Nat) (slots : Slots) : Slots :=
  (insertCopies i count {} slots.toList).toArray

variable {slots : Slots} {i count g : Nat}

theorem getElem?_widen (h : i ≤ slots.size) (j : Nat) :
    (slots.widen i count)[j]? =
      if j < i then slots[j]? else if j < i + count then some {} else slots[j - count]? := by
  simp only [widen, List.getElem?_toArray, @getElem?_insertCopies _ _ _ _ slots.toList h,
    Array.getElem?_toList]

theorem widen_modify_of_lt (h : i ≤ slots.size) (hg : g < i) (f : Slot → Slot) :
    Array.modify (slots.widen i count) g f = widen i count (Array.modify slots g f) := by
  apply Array.ext_getElem?
  intro j
  rw [getElem?_widen (by simpa using h), Array.getElem?_modify, getElem?_widen h,
    Array.getElem?_modify, Array.getElem?_modify]
  grind

theorem widen_modify_of_le (h : i ≤ slots.size) (hg : i ≤ g) (f : Slot → Slot) :
    Array.modify (slots.widen i count) (g + count) f = widen i count (Array.modify slots g f) := by
  apply Array.ext_getElem?
  intro j
  rw [getElem?_widen (by simpa using h), Array.getElem?_modify, getElem?_widen h,
    Array.getElem?_modify, Array.getElem?_modify]
  grind

theorem widen_replicate {n : Nat} (h : i ≤ n) (count : Nat) :
    widen i count (Array.replicate n {}) = Array.replicate (n + count) {} := by
  apply Array.ext_getElem?
  intro j
  rw [getElem?_widen (by simpa using h)]
  simp only [Array.getElem?_replicate]
  grind

end Slots

def Outcome.widen (i count : Nat) (o : Outcome) : Outcome := ⟨o.stop, o.slots.widen i count⟩

namespace Captures

/-- At most `limit` spans of a match with `count` unset groups put in at place `i`. -/
def widen (i count limit : Nat) (c : Captures) : Captures :=
  ⟨(insertCopies i count none c.spans).take (max limit 1)⟩

/-- The leftmost one of two matches. Of two that start together it is the longer one, and the first
one on a tie. -/
def leftmostLongest (left right : Option Captures) : Option Captures :=
  match left, right with
  | none, right => right
  | left, none => left
  | some a, some b =>
    if b.whole.start < a.whole.start ∨
        b.whole.start = a.whole.start ∧ a.whole.stop < b.whole.stop then some b
    else some a

theorem ofSlots_widen (slots : Slots) (i count limit : Nat) :
    ofSlots (slots.widen i count) limit = (ofSlots slots limit).widen i count limit := by
  have hspan : Slot.span? {} = none := rfl
  rw [ofSlots, ofSlots, widen, Slots.widen, List.map_take, map_insertCopies, hspan, List.map_take,
    take_insertCopies_take]

theorem whole_widen {i : Nat} (hi : 1 ≤ i) (count limit : Nat) (c : Captures) :
    (c.widen i count limit).whole = c.whole := by
  obtain ⟨i, rfl⟩ := Nat.exists_eq_add_of_le' hi
  obtain ⟨k, hk⟩ : ∃ k, max limit 1 = k + 1 := ⟨max limit 1 - 1, by omega⟩
  have hget : (c.widen (i + 1) count limit).get? 0 = c.get? 0 := by
    obtain ⟨spans⟩ := c
    rw [widen, hk]
    cases spans with
    | nil => cases count <;> rfl
    | cons first others => rfl
  rw [whole, whole, hget]

end Captures

namespace Matcher

variable {m m' : Matcher} {t : Target} {p q : Pattern} {i count d bound size pos : Nat}

/-- Places of two searches, where the first one has additional groups, which are untouched. -/
def Widens (i count size : Nat) (s s' : Place) : Prop :=
  s = ⟨s'.pos, s'.slots.widen i count⟩ ∧ s'.slots.size = size

/-- Additional groups do not disturb a search for items that do not refer to them, if its own groups
are numbered accordingly. -/
theorem mirrors_of_shares (h : m.Shares m') (hi : i ≤ size)
    (hgroups : ∀ g, 1 ≤ g → g < bound → g < i ∧ d = 0 ∨ i ≤ g ∧ d = count) :
    Mirrors m m' t t (fun what => ∀ g ∈ what.refs, g < i) d 1 bound (Widens i count size) := by
  refine h.mirrors ?_ ?_ ?_ ?_
  · rintro s s' ⟨rfl, -⟩
    rfl
  · rintro s s' pos ⟨rfl, hsize⟩
    exact ⟨rfl, hsize⟩
  · rintro s s' what ⟨rfl, hsize⟩ hwhat g hg
    rw [Slots.getElem?_widen (hsize ▸ hi), if_pos (hwhat g hg)]
  · rintro s s' g f ⟨rfl, hsize⟩ hg
    refine ⟨?_, by simpa using hsize⟩
    rcases hgroups g hg.1 hg.2 with ⟨hlt, rfl⟩ | ⟨hle, rfl⟩
    · exact congrArg (Place.mk s'.pos) (Slots.widen_modify_of_lt (hsize ▸ hi) hlt _)
    · exact congrArg (Place.mk s'.pos) (Slots.widen_modify_of_le (hsize ▸ hi) hle _)

theorem comparable_widen : Comparable fun o o' => o = Outcome.widen i count o' := by
  apply comparable_of_stop
  rintro _ o rfl
  rfl

theorem startPlace_widen (hi : 1 ≤ i) (hle : i ≤ m'.program.groups.size)
    (hsize : m.program.groups.size = m'.program.groups.size + count) (pos : Nat) :
    Widens i count m'.program.groups.size (m.startPlace pos) (m'.startPlace pos) := by
  refine ⟨congrArg (Place.mk pos) ?_, size_startSlots m' pos⟩
  rw [startSlots, hsize, ← Slots.widen_replicate hle]
  exact Slots.widen_modify_of_lt (by simpa using hle) hi _

theorem findsSame_accepted (hi : 1 ≤ i) (hle : i ≤ size) :
    FindsSame (Widens i count size) (fun o o' => o = Outcome.widen i count o') accepted
      accepted := by
  rintro s s' ⟨rfl, hsize⟩
  refine .some ?_
  exact congrArg (Outcome.mk s'.pos) (Slots.widen_modify_of_lt (hsize ▸ hle) hi _)

theorem seekAlts_widen (h : m.Shares m') (hm' : m'.program = .ofPattern t p) (hi : 1 ≤ i)
    (hle : i ≤ p.groupCount + 1)
    (hsize : m.program.groups.size = m'.program.groups.size + count)
    (hgroups : ∀ g, 1 ≤ g → g < 1 + p.groupCount → g < i ∧ d = 0 ∨ i ≤ g ∧ d = count)
    (hrefs : ∀ g ∈ p.refs, g < i) (pos : Nat) :
    m.seekAlts t p (1 + d) accepted (m.startPlace pos) =
      (m'.found t p pos).map (Outcome.widen i count) := by
  have hgroupCount : m'.program.groups.size = p.groupCount + 1 := by
    rw [hm', Program.size_groups_ofPattern]
  rw [← hgroupCount] at hle
  have hmirrors := mirrors_of_shares (t := t) h hle hgroups
  refine eq_map_of_rel (hmirrors.seekAlts comparable_widen p (n := 1) (fun what hwhat g hg => ?_)
    ⟨Nat.le_refl 1, Nat.le_refl _⟩ (findsSame_accepted hi hle) (startPlace_widen hi hle hsize pos))
  refine hrefs g ?_
  rw [Pattern.refs_eq_flatMap_leaves]
  exact List.mem_flatMap.mpr ⟨what, hwhat, hg⟩

theorem seek_either (p q : Pattern) (n : Nat) (k : Sequel) (s : Place) :
    m.seek t (p.either q) n k s = m.seek t p n k s ∧
      m.seekLater t (p.either q) n k s =
        Outcome.further (m.seekLater t p n k s) (m.seekAlts t q (n + p.groupCount) k s) := by
  unfold Pattern.either
  induction p generalizing n s with
  | done => exact ⟨rfl, (Outcome.further_none _).symm⟩
  | leaf what times rest ih =>
    have hrest : m.seek t (rest.append (.bar q)) n k = m.seek t rest n k :=
      funext fun s => (ih n s).1
    refine ⟨?_, (ih n s).2⟩
    simp only [Pattern.append, seek, hrest]
  | assert what rest ih =>
    refine ⟨?_, (ih n s).2⟩
    simp only [Pattern.append, seek, (ih n s).1]
  | group body times rest _ ih =>
    have hrest : m.seek t (rest.append (.bar q)) (n + 1 + body.groupCount) k =
        m.seek t rest (n + 1 + body.groupCount) k := funext fun s => (ih _ s).1
    have hcount : n + (Pattern.group body times rest).groupCount =
        n + 1 + body.groupCount + rest.groupCount := by
      simp only [Pattern.groupCount]
      omega
    refine ⟨?_, hcount ▸ (ih _ s).2⟩
    simp only [Pattern.append, seek, hrest]
  | bar rest ih =>
    refine ⟨rfl, ?_⟩
    simp only [Pattern.append, seekLater, ih, Outcome.further_assoc, Pattern.groupCount]

theorem seekAlts_either (p q : Pattern) (n : Nat) (k : Sequel) (s : Place) :
    m.seekAlts t (p.either q) n k s =
      Outcome.further (m.seekAlts t p n k s) (m.seekAlts t q (n + p.groupCount) k s) := by
  rw [seekAlts, (seek_either p q n k s).1, (seek_either p q n k s).2, ← Outcome.further_assoc]
  rfl

theorem map_findSome?_further {a b : Nat → Option Outcome} {caps : Outcome → Captures}
    (ha : ∀ pos o, a pos = some o → (caps o).whole = ⟨pos, o.stop⟩)
    (hb : ∀ pos o, b pos = some o → (caps o).whole = ⟨pos, o.stop⟩) {positions : List Nat}
    (hsorted : positions.Pairwise (· < ·)) :
    (positions.findSome? fun pos => Outcome.further (a pos) (b pos)).map caps =
      Captures.leftmostLongest ((positions.findSome? a).map caps)
        ((positions.findSome? b).map caps) := by
  -- Whatever is found behind the first position starts later than what is found there.
  have hlater : ∀ {c : Nat → Option Outcome} {pos : Nat} {rest : List Nat} {o : Outcome},
      (∀ pos o, c pos = some o → (caps o).whole = ⟨pos, o.stop⟩) → (∀ i ∈ rest, pos < i) →
      rest.findSome? c = some o → pos < (caps o).whole.start := by
    intro c pos rest o hc hrest ho
    obtain ⟨i, hi, hio⟩ := List.exists_of_findSome?_eq_some ho
    rw [hc i o hio]
    exact hrest i hi
  induction positions with
  | nil => rfl
  | cons pos rest ih =>
    obtain ⟨hrest, hsorted⟩ := List.pairwise_cons.mp hsorted
    simp only [List.findSome?_cons]
    cases hpa : a pos with
    | none =>
      cases hpb : b pos with
      | none => exact ih hsorted
      | some o =>
        simp only [Outcome.further_none]
        cases hfa : rest.findSome? a with
        | none => rfl
        | some o' =>
          have hlt : (caps o).whole.start < (caps o').whole.start := by
            have := hlater ha hrest hfa
            rw [hb pos o hpb]
            exact this
          simp only [Option.map_some, Captures.leftmostLongest, if_pos (Or.inl hlt)]
    | some o =>
      cases hpb : b pos with
      | none =>
        simp only [Outcome.further]
        cases hfb : rest.findSome? b with
        | none => rfl
        | some o' =>
          have hlt : (caps o).whole.start < (caps o').whole.start := by
            have := hlater hb hrest hfb
            rw [ha pos o hpa]
            exact this
          simp only [Option.map_some, Captures.leftmostLongest]
          rw [if_neg (by omega)]
      | some o' =>
        have hwhole := ha pos o hpa
        have hwhole' := hb pos o' hpb
        simp only [Outcome.further, Outcome.better, Option.map_some, Captures.leftmostLongest,
          hwhole, hwhole']
        by_cases hlt : o.stop < o'.stop <;> simp [hlt]

theorem whole_of_found {limit : Nat} (hm : m.program = .ofPattern t p) {o : Outcome}
    (h : m.found t p pos = some o) : (Captures.ofSlots o.slots limit).whole = ⟨pos, o.stop⟩ := by
  obtain ⟨s, hs, rfl⟩ := exists_walk_of_found hm h
  exact whole_ofSlots hm hs

theorem whole_of_map_found {limit : Nat} (hm : m.program = .ofPattern t p) (hi : 1 ≤ i)
    {o : Outcome} (h : (m.found t p pos).map (Outcome.widen i count) = some o) :
    (Captures.ofSlots o.slots limit).whole = ⟨pos, o.stop⟩ := by
  obtain ⟨o, ho, rfl⟩ := Option.map_eq_some_iff.mp h
  rw [Outcome.widen, Captures.ofSlots_widen, Captures.whole_widen hi]
  exact whole_of_found hm ho

variable {left right : Matcher}

theorem report_either (hl : m.Shares left) (hr : m.Shares right)
    (hm : m.program = .ofPattern t (p.either q)) (hp : left.program = .ofPattern t p)
    (hq : right.program = .ofPattern t q) (hrefsp : ∀ g ∈ p.refs, g ≤ p.groupCount)
    (hrefsq : q.refs = []) (start capture : Nat) :
    m.report capture (m.firstFound t (p.either q) start) =
      Captures.leftmostLongest
        ((left.report capture (left.firstFound t p start)).map
          (.widen (p.groupCount + 1) q.groupCount (m.captureLimit capture)))
        ((right.report capture (right.firstFound t q start)).map
          (.widen 1 p.groupCount (m.captureLimit capture))) := by
  have hsize : m.program.groups.size = p.groupCount + q.groupCount + 1 := by
    rw [hm, Program.size_groups_ofPattern, Pattern.groupCount_either]
  have hsizep : left.program.groups.size = p.groupCount + 1 := by
    rw [hp, Program.size_groups_ofPattern]
  have hsizeq : right.program.groups.size = q.groupCount + 1 := by
    rw [hq, Program.size_groups_ofPattern]
  have hlimitp : left.captureLimit capture = m.captureLimit capture := by
    rw [captureLimit, captureLimit, hp, hm]
    rfl
  have hlimitq : right.captureLimit capture = m.captureLimit capture := by
    rw [captureLimit, captureLimit, hq, hm]
    rfl
  -- At each position the match that ends further is found.
  have hfound : m.found t (p.either q) = fun pos => Outcome.further
      ((left.found t p pos).map (.widen (p.groupCount + 1) q.groupCount))
      ((right.found t q pos).map (.widen 1 p.groupCount)) := by
    funext pos
    rw [found, seekAlts_either,
      ← seekAlts_widen (d := 0) hl hp (by omega) (Nat.le_refl _) (by omega)
        (fun g _ _ => Or.inl ⟨by omega, rfl⟩) (fun g hg => Nat.lt_succ_of_le (hrefsp g hg)) pos,
      ← seekAlts_widen (d := p.groupCount) hr hq (Nat.le_refl 1) (by omega) (by omega)
        (fun g hg _ => Or.inr ⟨hg, rfl⟩) (by simp [hrefsq]) pos]
  let caps : Outcome → Captures := fun o => .ofSlots o.slots (m.captureLimit capture)
  let positions := m.subject.boundaries start (m.subject.size + 1 - start)
  have hside : ∀ (found : Nat → Option Outcome) (i count : Nat),
      (positions.findSome? fun pos => (found pos).map (.widen i count)).map caps =
        ((positions.findSome? found).map caps).map (.widen i count (m.captureLimit capture)) := by
    intro found i count
    have hmap : (positions.findSome? fun pos => (found pos).map (.widen i count)) =
        (positions.findSome? found).map (Outcome.widen i count) := List.map_findSome?.symm
    rw [hmap]
    cases positions.findSome? found with
    | none => rfl
    | some o => exact congrArg some (Captures.ofSlots_widen _ _ _ _)
  have hleft : left.report capture (left.firstFound t p start) =
      (positions.findSome? (left.found t p)).map caps := by
    rw [report, firstFound, hlimitp, ← hl.subject]
  have hright : right.report capture (right.firstFound t q start) =
      (positions.findSome? (right.found t q)).map caps := by
    rw [report, firstFound, hlimitq, ← hr.subject]
  rw [hleft, hright, ← hside, ← hside, report, firstFound, hfound]
  exact map_findSome?_further (fun pos o ho => whole_of_map_found hp (by omega) ho)
    (fun pos o ho => whole_of_map_found hq (Nat.le_refl 1) ho) (Subject.pairwise_boundaries _ _ _)

/-- Alternation is the leftmost longest union. The groups of the side that wins are reported as that
side reports them, those of the second pattern behind those of the first one. -/
theorem execute_either {o : Options} {l : Locale} {compileLimits : CompileLimits}
    {left right : List Char} {first second both : Program} (ho : o.dialect = .extended)
    (hfirst : Program.compile o l compileLimits left = .ok first)
    (hsecond : Program.compile o l compileLimits right = .ok second)
    (hboth : Program.compile o l compileLimits (left ++ '|' :: right) = .ok both)
    (hrefs : ∀ q, Pattern.read o.dialect compileLimits right = .ok q → q.refs = [])
    (s : Subject) (flags : ExecFlags) (limits : SearchLimits) (start capture : Nat)
    (hlimit₁ : WithinLimits ((Matcher.mk first l s flags).execute limits start capture))
    (hlimit₂ : WithinLimits ((Matcher.mk second l s flags).execute limits start capture))
    (hlimit : WithinLimits ((Matcher.mk both l s flags).execute limits start capture)) :
    ∃ a b, (Matcher.mk first l s flags).execute limits start capture = .ok a ∧
      (Matcher.mk second l s flags).execute limits start capture = .ok b ∧
      (Matcher.mk both l s flags).execute limits start capture =
        .ok (Captures.leftmostLongest
          (a.map (.widen (first.groupCount + 1) second.groupCount
            ((Matcher.mk both l s flags).captureLimit capture)))
          (b.map (.widen 1 first.groupCount
            ((Matcher.mk both l s flags).captureLimit capture)))) := by
  obtain ⟨p, hp, rfl⟩ := Program.exists_ofPattern hfirst
  obtain ⟨q, hq, rfl⟩ := Program.exists_ofPattern hsecond
  obtain ⟨r, hr, rfl⟩ := Program.exists_ofPattern hboth
  have hnone := hrefs q hq
  have hbounded := (Pattern.numbered_of_read hp).refs
  rw [ho] at hp hq hr
  obtain rfl := Pattern.read_either hp hq hr
  refine ⟨_, _, execute_eq_firstFound rfl (Program.connected_of_compile hfirst) hlimit₁,
    execute_eq_firstFound rfl (Program.connected_of_compile hsecond) hlimit₂, ?_⟩
  have hcount : ∀ p : Pattern, (Program.ofPattern ⟨o, l, compileLimits.run⟩ p).groupCount =
      p.groupCount := by
    intro p
    rw [Program.groupCount, Program.size_groups_ofPattern, Nat.add_sub_cancel]
  have hleft : Shares ⟨.ofPattern ⟨o, l, compileLimits.run⟩ (p.either q), l, s, flags⟩
      ⟨.ofPattern ⟨o, l, compileLimits.run⟩ p, l, s, flags⟩ := ⟨rfl, rfl, rfl, rfl⟩
  have hright : Shares ⟨.ofPattern ⟨o, l, compileLimits.run⟩ (p.either q), l, s, flags⟩
      ⟨.ofPattern ⟨o, l, compileLimits.run⟩ q, l, s, flags⟩ := ⟨rfl, rfl, rfl, rfl⟩
  rw [execute_eq_firstFound rfl (Program.connected_of_compile hboth) hlimit, hcount, hcount]
  exact congrArg Except.ok
    (report_either hleft hright rfl rfl rfl hbounded hnone start capture)

def lone : Pattern :=
  .group (.leaf (.char 'a') .once .done) .once (.bar (.leaf (.char 'b') .once .done))

def paired : Pattern :=
  .group (.leaf (.char 'a') .once .done) .once (.group (.leaf (.char 'b') .once .done) .once .done)

def plainly (p : Pattern) (cs : List Char) : Matcher :=
  ⟨.ofPattern ⟨{ dialect := .extended }, .posix, 255⟩ p, .posix, .ofList cs, {}⟩

/-- The second pattern wins, so that the group of the first one is not set. -/
theorem execute_either_paired :
    (plainly (lone.either paired) ['x', 'a', 'b']).execute {} 0 4 =
      .ok (some ⟨[some ⟨1, 3⟩, none, some ⟨1, 2⟩, some ⟨2, 3⟩]⟩) := by
  have hlone : (plainly lone ['x', 'a', 'b']).execute {} 0 4 =
      .ok (some ⟨[some ⟨1, 2⟩, some ⟨1, 2⟩]⟩) := by decide +kernel
  have hpaired : (plainly paired ['x', 'a', 'b']).execute {} 0 4 =
      .ok (some ⟨[some ⟨1, 3⟩, some ⟨1, 2⟩, some ⟨2, 3⟩]⟩) := by decide +kernel
  have hfirst : Program.compile { dialect := .extended } .posix {} ['(', 'a', ')', '|', 'b'] =
      .ok (plainly lone []).program := by decide
  have hsecond : Program.compile { dialect := .extended } .posix {}
      ['(', 'a', ')', '(', 'b', ')'] = .ok (plainly paired []).program := by decide
  have hboth : Program.compile { dialect := .extended } .posix {}
      (['(', 'a', ')', '|', 'b'] ++ '|' :: ['(', 'a', ')', '(', 'b', ')']) =
      .ok (plainly (lone.either paired) []).program := by decide
  obtain ⟨a, b, ha, hb, h⟩ := execute_either rfl hfirst hsecond hboth
    (fun q hq => by cases hq; rfl) (.ofList ['x', 'a', 'b']) {} {} 0 4
    (.of_isOk (by decide +kernel)) (.of_isOk (by decide +kernel)) (.of_isOk (by decide +kernel))
  obtain rfl := Except.ok.inj (ha.symm.trans hlone)
  obtain rfl := Except.ok.inj (hb.symm.trans hpaired)
  exact h

end Matcher

end PosixRegex
