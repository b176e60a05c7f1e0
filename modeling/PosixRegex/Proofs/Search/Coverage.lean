import PosixRegex.Proofs.Search.Ascent

namespace PosixRegex

namespace Matcher

variable {m : Matcher} {t : Target} {a b b' c n : Nat} {p q rest : Pattern} {s s' : Place}

/-- The search has ended, and what it has passed over from `pos` on opens with `first`. -/
def Passes (m : Matcher) (first : Char → Prop) (pos : Nat) (value : Option (Option Outcome)) :
    Prop :=
  ∃ result, value = some result ∧ ∀ o, result = some o → m.Opens first pos o.stop

/-- What is passed over from instruction `pc` on opens with `first`. -/
def Trails (m : Matcher) (pc : Nat) (first : Char → Prop) : Prop :=
  ∀ ⦃s⦄, m.Fits s → m.Passes first s.pos (m.play (s.thread pc))

namespace Passes

variable {first first' : Char → Prop} {pos : Nat} {value value' : Option (Option Outcome)}

theorem fail : m.Passes first pos (some none) :=
  ⟨none, rfl, fun _ ho => nomatch ho⟩

theorem mono (h : m.Passes first pos value) (hfirst : ∀ c, first c → first' c) :
    m.Passes first' pos value :=
  h.imp fun _ hr => ⟨hr.1, fun o ho => (hr.2 o ho).mono hfirst⟩

theorem orElse (h : m.Passes first pos value) (h' : m.Passes first pos value') :
    m.Passes first pos (firstOf value value') := by
  obtain ⟨result, rfl, hopens⟩ := h
  cases result with
  | none => exact h'
  | some o => exact ⟨some o, rfl, hopens⟩

end Passes

theorem Explores.passes {reach : Place → Prop} {far : Prop} {value : Option (Option Outcome)}
    {first after : Char → Prop} {pos : Nat} (h : m.Explores b reach far value)
    (hb : m.Trails b after) (hreach : ∀ s, reach s → m.Fits s ∧
      ∀ stop, m.Opens after s.pos stop → m.Opens first pos stop) : m.Passes first pos value := by
  obtain ⟨result, hvalue, hf⟩ := h fun s hs => (hb (hreach s hs).1).imp fun _ hr => hr.1
  refine ⟨result, hvalue, fun o ho => ?_⟩
  obtain ⟨s, hs, hplay⟩ := hf.sound ho
  obtain ⟨result', hplay', hopens⟩ := hb (hreach s hs).1
  exact (hreach s hs).2 _ (hopens o (Option.some.inj (hplay'.symm.trans hplay)))

/-- Whoever has passed over a character that nothing behind starts with need not come back. -/
theorem Trails.defers {after : Char → Prop} {round : Nat → Nat → Prop} (h : m.Trails b after)
    (hround : ∀ pos mid, round pos mid → pos < mid ∧
      ∃ c, m.subject.charAt? pos = some c ∧ ¬after c) : m.Defers b round := by
  intro s s' mid o o' hs hs' hr hmid ho ho'
  obtain ⟨hlt, c, hc, hafter⟩ := hround _ _ hr
  obtain ⟨result, hplay, hopens⟩ := h hs
  obtain ⟨result', hplay', hopens'⟩ := h hs'
  have hstay : o.stop ≤ s.pos := by
    refine Nat.le_of_not_lt fun hlt => ?_
    obtain ⟨c', hc', hin⟩ := (hopens o (Option.some.inj (hplay.symm.trans ho))).starts hlt
    obtain rfl := Option.some.inj (hc.symm.trans hc')
    exact hafter hin
  have hle := (hopens' o' (Option.some.inj (hplay'.symm.trans ho'))).le
  omega

/-- No choice in the pattern, behind which instruction `b` follows, stands in the way of the longest
match. -/
structure Clear (m : Matcher) (t : Target) (p : Pattern) (n b : Nat) : Prop where
  suits : m.Suits t
  proper : ∃ around, p.Proper around n
  tidy : ∃ last after, p.Tidy t.options t.locale last after ∧ (last = true → m.Ascends b) ∧
    m.Trails b after

theorem Clear.of_part {n' : Nat} (h : m.Clear t p n b)
    (hproper : ∀ around, p.Proper around n → q.Proper around n')
    (htidy : ∀ last after, p.Tidy t.options t.locale last after →
      q.Tidy t.options t.locale last after) : m.Clear t q n' b :=
  ⟨h.suits, h.proper.imp hproper, h.tidy.imp fun last h => h.imp fun after h =>
    ⟨htidy last after h.1, h.2⟩⟩

/-- The instructions from `a` up to `b` explore the walks through a part. -/
def Serves (m : Matcher) (t : Target) : Part → Nat → Nat → Prop
  | .seq p n, a, b => ∀ s, s.slots.size = m.program.groups.size →
      m.Explores b (m.Walk t (.seq p n) s) (m.Fits s ∧ m.Clear t p n b) (m.play (s.thread a))
  | .alts p n, a, b => ∀ s, s.slots.size = m.program.groups.size →
      m.Explores b (m.Walk t (.alts p n) s) (m.Fits s ∧ m.Clear t p n b) (m.play (s.thread a))
  | .chain p n, a, b => ∀ s, s.slots.size = m.program.groups.size →
      m.Ends b (m.Walk t (.alts p n) s) →
      ∃ result, m.Found b (m.Walk t (.alts p n) s) (m.Fits s ∧ m.Clear t p n b) result ∧
        ∀ best, m.playBranches a s.pos s.slots best = some (Outcome.further best result)
  | .rounds _ _ _ _, _, _ => True

/-- A part is explored, and who starts it later ends later if it is plain. -/
structure Covers (m : Matcher) (t : Target) (part : Part) (a b : Nat) : Prop where
  serves : m.Serves t part a b
  ascends (hp : part.isPlain = true) (hb : m.Ascends b) : m.Ascends a

theorem trails_of_serves {around : List Nat} {after : Char → Prop} (hm : m.Suits t)
    (hproper : p.Proper around n) (h : m.Serves t (.seq p n) a b) (hb : m.Trails b after) :
    m.Trails a (fun c => p.Leads t.options t.locale after c) := by
  intro s hs
  exact (h s hs.size_eq).passes hb fun s' hw => ⟨hw.fits hs, fun stop => hw.opening hm hproper⟩

theorem serves_run {cs : List Char} (hcs : cs ≠ [])
    (hi : m.program.insts[a]? = some (.ofAtom (.consume (t.literal cs))))
    (hrest : m.Serves t (.seq rest n) (a + 1) b) : m.Serves t (.seq (.chars cs rest) n) a b := by
  intro s hs
  refine (explores_run hcs hi).bind (m.Walk t (.seq rest n)) (fun mid hmid => ?_) fun s' => ?_
  · refine (hrest mid (hmid.2 ▸ hs)).mono fun ⟨hfits, hclear⟩ => ⟨⟨hmid.2 ▸ hs, ?_⟩, ?_⟩
    · exact Subject.isBoundary_of_acceptAll hfits.isBoundary hmid.1
    · exact hclear.of_part (fun _ => Pattern.proper_of_chars) fun _ _ => Pattern.tidy_chars.mp
  · rw [walk_chars]
    constructor
    · rintro ⟨next, hnext, h⟩
      exact ⟨⟨next, s.slots⟩, ⟨hnext, rfl⟩, h⟩
    · rintro ⟨⟨next, slots⟩, ⟨hnext, rfl⟩, h⟩
      exact ⟨next, hnext, h⟩

/-- Whether an item is repeated once more matters only where there is a choice, and there the
longest text is found behind the further repetition. -/
theorem defers_leaf {what : Leaf} {times : Repetition}
    (hrest : m.Covers t (.seq rest n) (a + 1) b) (h : m.Clear t (.leaf what times rest) n b) :
    times.isFixed = true ∨ m.Defers (a + 1) (m.Round (t.consumer what)) := by
  obtain ⟨around, hwhat, -, hproper⟩ := h.proper
  obtain ⟨last, after, ⟨htimes, -⟩, hlast, hafter⟩ := h.tidy
  rcases htimes with hfix | hplain | happart
  · exact Or.inl hfix
  · rw [Bool.and_eq_true] at hplain
    refine Or.inr ((hrest.ascends hplain.1 (hlast hplain.2)).defers ?_)
    exact fun pos mid hr => Nat.le_of_lt hr.1
  · refine Or.inr ((trails_of_serves h.suits hproper hrest.serves hafter).defers ?_)
    rintro pos mid ⟨hlt, slots, hc⟩
    obtain ⟨c, hchar, hstarts⟩ := (opens_of_consume h.suits hwhat hc).starts hlt
    exact ⟨hlt, c, hchar, happart c hstarts⟩

theorem serves_leaf {what : Leaf} {times : Repetition}
    (hi : m.program.insts[a]? = some ⟨.consume (t.consumer what), times⟩)
    (hrest : m.Covers t (.seq rest n) (a + 1) b) :
    m.Serves t (.seq (.leaf what times rest) n) a b := by
  intro s hs
  have hfar : m.Fits s ∧ m.Clear t (.leaf what times rest) n b → times.isFixed = true ∨
      (m.Fits s ∧ m.Defers (a + 1) (m.Round (t.consumer what))) :=
    fun ⟨hfits, hclear⟩ => (defers_leaf hrest hclear).imp_right fun h => ⟨hfits, h⟩
  refine (explores_consume hi hfar).bind (m.Walk t (.seq rest n)) (fun mid hmid => ?_) fun s' => ?_
  · refine (hrest.serves mid (hmid.2 ▸ hs)).mono fun ⟨hfits, hclear⟩ => ⟨⟨hmid.2 ▸ hs, ?_⟩, ?_⟩
    · exact hmid.1.isBoundary hfits.isBoundary
    · exact hclear.of_part (fun _ hp => hp.2.2) fun _ _ htidy => htidy.2
  · constructor
    · intro h
      cases h with
      | leaf hr hrest => exact ⟨⟨_, s.slots⟩, ⟨hr, rfl⟩, hrest⟩
    · rintro ⟨⟨next, slots⟩, ⟨hr, rfl⟩, h⟩
      exact .leaf hr h

theorem serves_assert {what : Assertion}
    (hi : m.program.insts[a]? = some (.ofAtom (.assert what)))
    (hrest : m.Serves t (.seq rest n) (a + 1) b) :
    m.Serves t (.seq (.assert what rest) n) a b := by
  intro s hs
  rw [show m.play (s.thread a) = if m.holds what s.pos then m.play (s.thread (a + 1))
    else some none from play_assert hi]
  split
  · rename_i hw
    have hclear : m.Clear t (.assert what rest) n b → m.Clear t rest n b :=
      fun h => h.of_part (fun _ => id) fun _ _ => id
    refine ((hrest s hs).mono (And.imp_right hclear)).of_iff fun s' => ?_
    constructor
    · intro h
      cases h with
      | assert _ h => exact h
    · exact fun h => .assert hw h
  · rename_i hw
    refine .nothing fun s' h => ?_
    cases h with
    | assert h => exact hw h

/-- How the rounds of a group go on after one of them has led from `s` to `mid`. -/
def Onward (m : Matcher) (t : Target) (body : Pattern) (times : Repetition) (g count : Nat)
    (s mid s' : Place) : Prop :=
  if times = .once then s' = ⟨mid.pos, mid.slots.close g mid.pos⟩
  else if mid.pos = s.pos then
    count < max times.min 1 ∧ s' = ⟨mid.pos, mid.slots.finish g mid.pos⟩
  else
    (times.belowMax (count + 1) = true ∧
      m.Walk t (.rounds body times g (count + 1)) ⟨mid.pos, mid.slots.restart g mid.pos⟩ s') ∨
    (times.min ≤ count + 1 ∨ times.belowMax (count + 1) = false) ∧
      s' = ⟨mid.pos, mid.slots.finish g mid.pos⟩

theorem walk_rounds_iff {body : Pattern} {times : Repetition} {g count : Nat} :
    m.Walk t (.rounds body times g count) s s' ↔
      ∃ mid, m.Walk t (.alts body (g + 1)) s mid ∧ m.Onward t body times g count s mid s' := by
  constructor
  · intro h
    cases h with
    | once hbody => exact ⟨_, hbody, by simp [Onward]⟩
    | empty ho hbody hpos hcount => exact ⟨_, hbody, by simpa [Onward, ho, hpos] using hcount⟩
    | enough ho hbody hpos hcount =>
      refine ⟨_, hbody, ?_⟩
      simp only [Onward, ho, hpos, if_false]
      exact Or.inr ⟨hcount, trivial⟩
    | again ho hbody hpos hcount hrest =>
      refine ⟨_, hbody, ?_⟩
      simp only [Onward, ho, hpos, if_false]
      exact Or.inl ⟨hcount, hrest⟩
  · rintro ⟨mid, hbody, h⟩
    unfold Onward at h
    split at h
    · rename_i ho
      subst ho h
      exact .once hbody
    · rename_i ho
      split at h
      · rename_i hpos
        obtain ⟨hcount, rfl⟩ := h
        exact .empty ho hbody hpos hcount
      · rename_i hpos
        rcases h with ⟨hcount, hrest⟩ | ⟨hcount, rfl⟩
        · exact .again ho hbody hpos hcount hrest
        · exact .enough ho hbody hpos hcount

def Iteration (m : Matcher) (t : Target) (body : Pattern) (g pos mid : Nat) : Prop :=
  ∃ slots slots', m.Walk t (.alts body (g + 1)) ⟨pos, slots⟩ ⟨mid, slots'⟩

/-- No choice in the rounds of a group, which is left at `c`, stands in the way. -/
structure ClearRounds (m : Matcher) (t : Target) (body : Pattern) (times : Repetition) (g c : Nat) :
    Prop where
  inside : m.Clear t body (g + 1) c
  times : times.isFixed = true ∧ 0 < times.min ∨ m.Defers (c + 1) (m.Iteration t body g)

theorem explores_onward {body : Pattern} {times : Repetition} {g count : Nat} {mid : Place}
    {slot : Slot} {far : Prop} (hl : m.program.insts[c]? = some ⟨.leave g, times⟩)
    (hg : m.program.groups[g]? = some ⟨a, c⟩) (hslot : mid.slots[g]? = some slot)
    (hstart : slot.start = some s.pos) (hcount : slot.count = count)
    (hfar : far → times.isFixed = true ∨ (m.Fits mid ∧ m.Defers (c + 1) (m.Iteration t body g)))
    (hrounds : mid.pos ≠ s.pos → m.Explores (c + 1)
      (m.Walk t (.rounds body times g (count + 1)) ⟨mid.pos, mid.slots.restart g mid.pos⟩) far
      (m.play (Place.thread ⟨mid.pos, mid.slots.restart g mid.pos⟩ (a + 1)))) :
    m.Explores (c + 1) (m.Onward t body times g count s mid) far (m.play (mid.thread c)) := by
  have hstop : ∀ s₁ : Place, m.Explores (c + 1) (· = s₁) far (m.play (s₁.thread (c + 1))) :=
    fun s₁ => .single s₁ fun _ => Iff.rfl
  by_cases ho : times = .once
  · subst ho
    rw [play_leave_once_thread hl hslot hg]
    exact (hstop _).of_iff fun s' => by rw [Onward, if_pos rfl]
  · rw [play_leave_thread hl ho hslot hg, hstart, hcount]
    by_cases hpos : mid.pos = s.pos
    · rw [if_pos (congrArg some hpos.symm)]
      by_cases hlt : count < max times.min 1
      · rw [if_neg (Nat.not_le.mpr hlt)]
        refine (hstop _).of_iff fun s' => ?_
        rw [Onward, if_neg ho, if_pos hpos]
        exact and_iff_right hlt
      · rw [if_pos (Nat.not_lt.mp hlt)]
        refine .nothing fun s' h => ?_
        rw [Onward, if_neg ho, if_pos hpos] at h
        exact hlt h.1
    · rw [if_neg fun h => hpos (Option.some.inj h).symm]
      have hiff : ∀ s', m.Onward t body times g count s mid s' ↔
          (times.belowMax (count + 1) = true ∧ m.Walk t (.rounds body times g (count + 1))
            ⟨mid.pos, mid.slots.restart g mid.pos⟩ s') ∨
          (times.min ≤ count + 1 ∨ times.belowMax (count + 1) = false) ∧
            s' = ⟨mid.pos, mid.slots.finish g mid.pos⟩ := by
        intro s'
        rw [Onward, if_neg ho, if_neg hpos]
      by_cases hmax : times.belowMax (count + 1) = true
      · rw [if_pos hmax]
        simp only [hmax, true_and, Bool.true_eq_false, or_false] at hiff
        by_cases hmin : times.min ≤ count + 1
        · rw [if_pos hmin]
          refine (hrounds hpos).orElse (hstop _) (fun s' => by rw [hiff, and_iff_right hmin]) ?_
          rintro hf s₁ s₂ o₁ o₂ hwalk rfl ho₁ ho₂
          -- Another iteration is tried first, and what follows it ends no earlier.
          rcases hfar hf with hfix | ⟨hfit, hdefers⟩
          · exact absurd (Repetition.lt_min_of_isFixed hfix hmax) (Nat.not_lt.mpr hmin)
          · have hfit₁ := hwalk.fits ⟨by simpa using hfit.size_eq, hfit.isBoundary⟩
            have hfit₂ : m.Fits ⟨mid.pos, mid.slots.finish g mid.pos⟩ :=
              ⟨by simpa using hfit.size_eq, hfit.isBoundary⟩
            obtain ⟨first, hfirst, hle, -⟩ := hwalk.first_iteration
            exact hdefers hfit₂ hfit₁ ⟨_, _, hfirst⟩ hle ho₂ ho₁
        · rw [if_neg hmin, firstOf_fail]
          exact (hrounds hpos).of_iff fun s' => by simp only [hiff, hmin, false_and, or_false]
      · rw [if_neg hmax]
        refine (hstop _).of_iff fun s' => ?_
        rw [hiff]
        simp [hmax]

theorem explores_rounds {body : Pattern} {times : Repetition} {g count : Nat} {stop : Option Nat}
    (hbody : m.Serves t (.alts body (g + 1)) (a + 1) c)
    (hl : m.program.insts[c]? = some ⟨.leave g, times⟩) (hg : m.program.groups[g]? = some ⟨a, c⟩)
    (hs : s.slots.size = m.program.groups.size)
    (hslot : s.slots[g]? = some ⟨count, some s.pos, stop⟩) :
    m.Explores (c + 1) (m.Walk t (.rounds body times g count) s)
      (m.Fits s ∧ m.ClearRounds t body times g c) (m.play (s.thread (a + 1))) := by
  induction hn : m.subject.size - s.pos using Nat.strongRecOn generalizing s count stop with
  | ind k ih =>
    subst hn
    have hclear : m.ClearRounds t body times g c → m.Clear t body (g + 1) c := ClearRounds.inside
    refine ((hbody s hs).mono (And.imp_right hclear)).bind (m.Onward t body times g count s)
      (fun mid hmid => ?_) fun s' => walk_rounds_iff
    have hmids := hmid.size_eq.trans hs
    have hmidslot : mid.slots[g]? = some ⟨count, some s.pos, stop⟩ :=
      (hmid.slot_eq (Or.inl (Nat.lt_succ_self g))).trans hslot
    have hbounds := hmid.bounds
    refine explores_onward hl hg hmidslot rfl rfl (fun ⟨hfits, hclear⟩ => ?_) fun hpos => ?_
    · exact hclear.times.imp And.left fun h => ⟨hmid.fits hfits, h⟩
    · have hrestart : (mid.slots.restart g mid.pos)[g]? =
          some ⟨count + 1, some mid.pos, some mid.pos⟩ :=
        Slots.getElem?_restart hmidslot _
      refine (ih _ ?_ (by simpa using hmids) hrestart rfl).mono fun ⟨hfits, hclear⟩ => ?_
      · simp only
        omega
      · exact ⟨⟨by simpa using hmids, (hmid.fits hfits).isBoundary⟩, hclear⟩

theorem trails_leave {body : Pattern} {times : Repetition} {g : Nat} {around : List Nat}
    {after : Char → Prop} (hm : m.Suits t) (hproper : body.Proper around (g + 1))
    (hbody : m.Serves t (.alts body (g + 1)) (a + 1) c)
    (hl : m.program.insts[c]? = some ⟨.leave g, times⟩) (hg : m.program.groups[g]? = some ⟨a, c⟩)
    (hafter : m.Trails (c + 1) after) :
    m.Trails c fun x => times.belowMax 1 = true ∧ body.Starts t.options t.locale x true ∨
      after x := by
  intro s hs
  obtain ⟨slot, hslot⟩ := getElem?_slots hs.size_eq hg
  have hpass : ∀ slots : Slots, slots.size = s.slots.size → m.Passes
      (fun x => times.belowMax 1 = true ∧ body.Starts t.options t.locale x true ∨ after x) s.pos
      (m.play (Place.thread ⟨s.pos, slots⟩ (c + 1))) := by
    intro slots hsize
    have hfits : m.Fits ⟨s.pos, slots⟩ := ⟨hsize.trans hs.size_eq, hs.isBoundary⟩
    exact (hafter hfits).mono fun _ => Or.inr
  by_cases ho : times = .once
  · subst ho
    rw [play_leave_once_thread hl hslot hg]
    exact hpass _ (Slots.size_close _ _ _)
  · rw [play_leave_thread hl ho hslot hg]
    have hfinish := hpass _ (Slots.size_finish s.slots g s.pos)
    split
    · split
      · exact .fail
      · exact hfinish
    · split
      · rename_i hmax
        have hsize : (s.slots.restart g s.pos).size = m.program.groups.size := by
          simpa using hs.size_eq
        have hrestart := Slots.getElem?_restart hslot s.pos
        refine Passes.orElse ((explores_rounds hbody hl hg hsize hrestart).passes hafter ?_) ?_
        · intro s' hw
          refine ⟨hw.fits ⟨hsize, hs.isBoundary⟩, fun stop hstop => ?_⟩
          refine (hw.opening hm hproper).trans hstop (fun x hx => Or.inl ⟨?_, hx⟩)
            fun _ _ => Or.inr
          exact Repetition.belowMax_of_le hmax (Nat.le_add_left 1 slot.count)
        · split
          · exact hfinish
          · exact .fail
      · exact hfinish

/-- Whether a group is repeated once more matters only where there is a choice, and there the
longest text is found behind the further iteration. -/
theorem clearRounds {body : Pattern} {times : Repetition}
    (hbody : m.Serves t (.alts body (n + 1)) (a + 1) c)
    (hl : m.program.insts[c]? = some ⟨.leave n, times⟩) (hg : m.program.groups[n]? = some ⟨a, c⟩)
    (hrest : m.Covers t (.seq rest (n + 1 + body.groupCount)) (c + 1) b)
    (h : m.Clear t (.group body times rest) n b) : m.ClearRounds t body times n c := by
  obtain ⟨around, hproper, -, hproperRest⟩ := h.proper
  obtain ⟨last, after, ⟨htidy, htimes, -⟩, hlast, hafter⟩ := h.tidy
  have hascends : (rest.isPlain && last) = true → m.Ascends (c + 1) := by
    intro hplain
    rw [Bool.and_eq_true] at hplain
    exact hrest.ascends hplain.1 (hlast hplain.2)
  have htrails := trails_of_serves h.suits hproperRest hrest.serves hafter
  refine ⟨⟨h.suits, ⟨_, hproper⟩, _, _, htidy, fun honce => ?_, ?_⟩, ?_⟩
  · simp only [Bool.and_eq_true, Repetition.isOnce, beq_iff_eq] at honce
    obtain ⟨⟨rfl, hplain⟩, hlast'⟩ := honce
    exact ascends_leave_once hl hg (hascends (Bool.and_eq_true_iff.mpr ⟨hplain, hlast'⟩))
  · exact trails_leave h.suits hproper hbody hl hg htrails
  · rcases htimes with hfix | hplain | ⟨hempty, happart⟩
    · exact Or.inl hfix
    · refine Or.inr ((hascends hplain).defers ?_)
      rintro pos mid ⟨slots, slots', hw⟩
      exact hw.bounds.1
    · refine Or.inr (htrails.defers ?_)
      rintro pos mid ⟨slots, slots', hw⟩
      have hlt : pos < mid := by
        refine Nat.lt_of_le_of_ne hw.bounds.1 fun hpos => ?_
        have := hw.mayBeEmpty hpos.symm
        rw [Part.mayBeEmpty, hempty] at this
        cases this
      obtain ⟨x, hchar, hstarts⟩ := (hw.opening h.suits hproper).starts hlt
      exact ⟨hlt, x, hchar, happart x hstarts⟩

theorem walk_group_iff {body : Pattern} {times : Repetition} :
    m.Walk t (.seq (.group body times rest) n) s s' ↔
      ∃ mid, (m.Walk t (.rounds body times n 0) ⟨s.pos, s.slots.enter n s.pos⟩ mid ∨
        times.min = 0 ∧ mid = ⟨s.pos, s.slots.skip n⟩) ∧
        m.Walk t (.seq rest (n + 1 + body.groupCount)) mid s' := by
  constructor
  · intro h
    cases h with
    | skip hmin hrest => exact ⟨_, Or.inr ⟨hmin, rfl⟩, hrest⟩
    | group hrounds hrest => exact ⟨_, Or.inl hrounds, hrest⟩
  · rintro ⟨mid, hrounds | ⟨hmin, rfl⟩, hrest⟩
    · exact .group hrounds hrest
    · exact .skip hmin hrest

theorem serves_group {body : Pattern} {times : Repetition}
    (hi : m.program.insts[a]? = some ⟨.enter n, times⟩)
    (hbody : m.Serves t (.alts body (n + 1)) (a + 1) c)
    (hl : m.program.insts[c]? = some ⟨.leave n, times⟩) (hg : m.program.groups[n]? = some ⟨a, c⟩)
    (hrest : m.Covers t (.seq rest (n + 1 + body.groupCount)) (c + 1) b) :
    m.Serves t (.seq (.group body times rest) n) a b := by
  intro s hs
  obtain ⟨slot, hslot⟩ := getElem?_slots hs hg
  let entered : Place := ⟨s.pos, s.slots.enter n s.pos⟩
  let skipped : Place := ⟨s.pos, s.slots.skip n⟩
  have hplay : m.play (s.thread a) = firstOf (m.play (entered.thread (a + 1)))
      (if times.min = 0 then m.play (skipped.thread (c + 1)) else some none) :=
    play_enter hi hslot hg
  have henter := Slots.getElem?_enter hslot s.pos
  have hsize : entered.slots.size = m.program.groups.size := by simpa [entered] using hs
  have hfits : m.Fits s → m.Fits entered ∧ m.Fits skipped := fun hfit =>
    ⟨⟨hsize, hfit.isBoundary⟩, ⟨by simpa [skipped] using hs, hfit.isBoundary⟩⟩
  have hclear : m.Clear t (.group body times rest) n b → m.ClearRounds t body times n c :=
    clearRounds hbody hl hg hrest
  have hskip : m.Explores (c + 1) (fun s' => times.min = 0 ∧ s' = skipped)
      (m.Fits s ∧ m.Clear t (.group body times rest) n b)
      (if times.min = 0 then m.play (skipped.thread (c + 1)) else some none) := by
    split
    · rename_i hmin
      exact .single skipped fun s' => and_iff_right hmin
    · rename_i hmin
      exact .nothing fun s' h => hmin h.1
  have hrounds := (explores_rounds hbody hl hg hsize henter).mono
    fun h : m.Fits s ∧ m.Clear t (.group body times rest) n b => ⟨(hfits h.1).1, hclear h.2⟩
  rw [hplay]
  refine (hrounds.orElse hskip (fun s' => Iff.rfl) ?_).bind
    (m.Walk t (.seq rest (n + 1 + body.groupCount))) (fun mid hmid => ?_) fun s' => walk_group_iff
  · rintro ⟨hfit, h⟩ s₁ s₂ o₁ o₂ hwalk ⟨hmin, rfl⟩ ho₁ ho₂
    obtain ⟨hentered, hskipped⟩ := hfits hfit
    obtain ⟨first, hfirst, hle, -⟩ := hwalk.first_iteration
    -- The group is entered before it is skipped; a fixed number of iterations leaves no choice.
    rcases (hclear h).times with ⟨-, hpos⟩ | hdefers
    · omega
    · exact hdefers hskipped (hwalk.fits hentered) ⟨_, _, hfirst⟩ hle ho₂ ho₁
  · have hmids : mid.slots.size = m.program.groups.size := by
      rcases hmid with hwalk | ⟨-, rfl⟩
      · exact hwalk.size_eq.trans hsize
      · simpa [skipped] using hs
    refine (hrest.serves mid hmids).mono ?_
    rintro ⟨hfit, h⟩
    constructor
    · rcases hmid with hwalk | ⟨-, rfl⟩
      · exact hwalk.fits (hfits hfit).1
      · exact (hfits hfit).2
    · exact h.of_part (fun _ hp => hp.2.2) fun _ _ htidy => htidy.2.2

theorem walk_alts_iff_of_none (hp : p.afterBar n = none) :
    m.Walk t (.alts p n) s s' ↔ m.Walk t (.seq p n) s s' := by
  constructor
  · intro h
    cases h with
    | here h => exact h
    | later hq => rw [hp] at hq; cases hq
  · exact .here

theorem walk_alts_iff_of_some {n' : Nat} (hp : p.afterBar n = some (n', q)) :
    m.Walk t (.alts p n) s s' ↔ m.Walk t (.seq p n) s s' ∨ m.Walk t (.alts q n') s s' := by
  constructor
  · intro h
    cases h with
    | here h => exact Or.inl h
    | later hq h =>
      rw [hp] at hq
      cases hq
      exact Or.inr h
  · rintro (h | h)
    · exact .here h
    · exact .later hp h

theorem serves_of_play_eq (h : m.Serves t (.seq p n) a b')
    (heq : ∀ s : Place, m.play (s.thread b') = m.play (s.thread b)) :
    m.Serves t (.seq p n) a b := by
  intro s hs
  refine ((h s hs).of_play_eq heq).mono (And.imp_right fun hclear => ?_)
  obtain ⟨last, after, htidy, hlast, hafter⟩ := hclear.tidy
  refine ⟨hclear.suits, hclear.proper, last, after, htidy, fun hl => (hlast hl).of_play_eq heq, ?_⟩
  exact fun s hs => (heq s).symm ▸ hafter hs

theorem serves_last {d : Nat} (hp : p.afterBar n = none)
    (hi : m.program.insts[a]? = some (.ofAtom (.branch (d + 1)))) (hd : a + (d + 1) = b)
    (hseq : m.Serves t (.seq p n) (a + 1) b)
    (he : m.program.insts[b]? = some (.ofAtom (.branch 0))) :
    m.Serves t (.chain p n) a (b + 1) := by
  intro s hs hends
  have hserves := serves_of_play_eq hseq (b := b + 1) fun s => play_branch_zero he
  obtain ⟨result, hplay, hf⟩ := hserves s hs fun s' hs' => hends s' (.here hs')
  refine ⟨result, hf.of_iff fun s' => walk_alts_iff_of_none hp, fun best => ?_⟩
  rw [playBranches_eq, show m.play ⟨a + 1, s.pos, s.slots⟩ = some result from hplay,
    Option.bind_some, playFollowing, nextBranch_last hi (hd ▸ he)]

theorem serves_more {n' d g : Nat} {span : GroupSpan} (hp : p.afterBar n = some (n', q))
    (hi : m.program.insts[a]? = some (.ofAtom (.branch (d + 1)))) (hd : a + (d + 1) = b + 1)
    (hseq : m.Serves t (.seq p n) (a + 1) b) (hj : m.program.insts[b]? = some (.ofAtom (.join g)))
    (hg : m.program.groups[g]? = some span) (hstop : span.stop = c)
    (hlaid : Laid m.program t (.chain q n') (b + 1) c)
    (hchain : m.Serves t (.chain q n') (b + 1) c) : m.Serves t (.chain p n) a c := by
  intro s hs hends
  have hserves := serves_of_play_eq hseq (b := c) fun s => hstop ▸ play_join hj hg
  obtain ⟨result, hplay, hf⟩ := hserves s hs fun s' hs' => hends s' (.here hs')
  obtain ⟨others, hothers, hbranches⟩ := hchain s hs fun s' hs' => hends s' (.later hp hs')
  obtain ⟨d', hhead⟩ := hlaid.chain_head
  refine ⟨Outcome.further result others, hf.further (hothers.mono (And.imp_right fun hclear => ?_))
    fun s' => walk_alts_iff_of_some hp, fun best => ?_⟩
  · exact hclear.of_part (fun _ => Pattern.proper_of_afterBar hp)
      fun _ _ => Pattern.tidy_of_afterBar hp
  · rw [playBranches_eq, show m.play ⟨a + 1, s.pos, s.slots⟩ = some result from hplay,
      Option.bind_some, playFollowing, nextBranch_more hi (hd ▸ hhead)]
    simp only [hd, hbranches, Outcome.further_assoc]

theorem serves_headed (hlaid : Laid m.program t (.chain p n) a b)
    (hchain : m.Serves t (.chain p n) a b) : m.Serves t (.alts p n) a b := by
  intro s hs hends
  obtain ⟨result, hf, hbranches⟩ := hchain s hs hends
  obtain ⟨d, hi⟩ := hlaid.chain_head
  refine ⟨result, ?_, hf⟩
  rw [show m.play (s.thread a) = m.playBranches a s.pos s.slots none from play_branch hi,
    hbranches, Outcome.further_none]

theorem serves_done : m.Serves t (.seq .done n) a a := by
  intro s _
  refine .single s fun s' => ⟨fun h => ?_, fun h => h ▸ .done⟩
  cases h
  rfl

/-- A group in something plain is itself plain, or it has a fixed number of characters. -/
theorem ascends_group {body : Pattern} {times : Repetition}
    (hi : m.program.insts[a]? = some ⟨.enter n, times⟩)
    (hbody : m.Covers t (.alts body (n + 1)) (a + 1) c)
    (hl : m.program.insts[c]? = some ⟨.leave n, times⟩) (hg : m.program.groups[n]? = some ⟨a, c⟩)
    (hp : (Pattern.group body times rest).isPlain = true) (h : m.Ascends (c + 1)) :
    m.Ascends a := by
  simp only [Pattern.isPlain, Bool.and_eq_true, Bool.or_eq_true, decide_eq_true_eq] at hp
  rcases hp.1 with ⟨⟨honce, hbar⟩, hplain⟩ | ⟨hfix, hwidth⟩
  · rw [Repetition.isOnce, beq_iff_eq] at honce
    subst honce
    have hbody' : (Part.alts body (n + 1)).isPlain = true := Bool.and_eq_true_iff.mpr ⟨hbar, hplain⟩
    exact ascends_enter_once hi hg (hbody.ascends hbody' (ascends_leave_once hl hg h))
  · obtain ⟨k, hk⟩ := Option.isSome_iff_exists.mp hwidth
    have hwidth' : (Pattern.group body times .done).width? 0 = some (0 + times.min * k) := by
      simp [Pattern.width?, hfix, hk]
    exact ascends_level hwidth' (serves_group hi hbody.serves hl hg ⟨serves_done, fun _ => id⟩) h

theorem covers_of_laid {part : Part} (h : Laid m.program t part a b) : m.Covers t part a b := by
  induction h with
  | done => exact ⟨serves_done, fun _ => id⟩
  | bar =>
    refine ⟨fun s _ => .single s fun s' => ⟨fun h => ?_, fun h => h ▸ .bar⟩, fun _ => id⟩
    cases h
    rfl
  | run hcs hi _ ih =>
    refine ⟨serves_run hcs hi ih.serves, fun hp hb => ascends_run hcs hi (ih.ascends ?_ hb)⟩
    rwa [Part.isPlain, Pattern.isPlain_chars] at hp
  | leaf hi _ ih =>
    refine ⟨serves_leaf hi ih, fun hp hb => ?_⟩
    rw [Part.isPlain, Pattern.isPlain, Bool.and_eq_true, Bool.not_eq_true'] at hp
    exact ascends_leaf hp.1 hi (ih.ascends hp.2 hb)
  | assert hi _ ih =>
    exact ⟨serves_assert hi ih.serves, fun hp hb => ascends_assert hi (ih.ascends hp hb)⟩
  | group hi _ hl hg _ ihbody ihrest =>
    refine ⟨serves_group hi ihbody.serves hl hg ihrest, fun hp hb => ?_⟩
    exact ascends_group hi ihbody hl hg hp (ihrest.ascends (Bool.and_eq_true_iff.mp hp).2 hb)
  | only hp _ ih =>
    refine ⟨fun s hs => (ih.serves s hs).of_iff fun s' => walk_alts_iff_of_none hp, ?_⟩
    exact fun hplain => ih.ascends (Bool.and_eq_true_iff.mp hplain).2
  | headed hlaid ih => exact ⟨serves_headed hlaid ih.serves, ih.ascends⟩
  | last hp hi hd _ he ih =>
    refine ⟨serves_last hp hi hd ih.serves he, fun hplain => ascends_last hi hd he ?_⟩
    exact ih.ascends (Bool.and_eq_true_iff.mp hplain).2
  | more hp hi hd _ hj hg hstop hlaid ihseq ihchain =>
    refine ⟨serves_more hp hi hd ihseq.serves hj hg hstop hlaid ihchain.serves, fun hplain => ?_⟩
    have hnone := Option.isNone_iff_eq_none.mp (Bool.and_eq_true_iff.mp hplain).1
    rw [Pattern.afterBar_eq_none hnone] at hp
    cases hp

end Matcher

end PosixRegex
