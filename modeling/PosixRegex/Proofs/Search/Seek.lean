import PosixRegex.Proofs.Search.Agreement

namespace PosixRegex

/-- How a search goes on from a place. -/
abbrev Sequel := Place → Option Outcome

namespace Matcher

/-- Repeat a consumer after `count` repetitions, as often as it goes and then less often. -/
def seekCounts (m : Matcher) (what : Consumer) (times : Repetition) (k : Sequel) (count : Nat)
    (s : Place) : Option Outcome :=
  match h : m.consume what s.pos s.slots with
  | none => if count < times.min then none else k s
  | some pos =>
    if count < times.min then m.seekCounts what times k (count + 1) ⟨pos, s.slots⟩
    else if times.belowMax count ∧ s.pos < pos then
      (m.seekCounts what times k (count + 1) ⟨pos, s.slots⟩).or (k s)
    else k s
termination_by (times.min - count) + (m.subject.size - s.pos)
decreasing_by
  all_goals
    have := consume_bounds h
    omega

/-- Make the iterations of group `g` that follow `count` others, where `body` searches the inside of
the group. Each of them but the last one leads further on in the subject. -/
def seekRounds (m : Matcher) (body : Sequel → Sequel) (times : Repetition) (g : Nat) (k : Sequel)
    (count : Nat) (s : Place) : Option Outcome :=
  body (fun mid =>
    if times = .once then k ⟨mid.pos, mid.slots.close g mid.pos⟩
    else if mid.pos = s.pos then
      if count < max times.min 1 then k ⟨mid.pos, mid.slots.finish g mid.pos⟩ else none
    else if times.belowMax (count + 1) then
      if _h : s.pos < mid.pos ∧ mid.pos ≤ m.subject.size then
        (m.seekRounds body times g k (count + 1) ⟨mid.pos, mid.slots.restart g mid.pos⟩).or
          (if times.min ≤ count + 1 then k ⟨mid.pos, mid.slots.finish g mid.pos⟩ else none)
      else none
    else k ⟨mid.pos, mid.slots.finish g mid.pos⟩) s
termination_by m.subject.size - s.pos
decreasing_by
  omega

mutual

/-- Search the items up to the first bar, where the groups are numbered from `n` on. -/
def seek (m : Matcher) (t : Target) : Pattern → Nat → Sequel → Sequel
  | .done, _, k, s => k s
  | .bar _, _, k, s => k s
  | .leaf what times rest, n, k, s =>
    m.seekCounts (t.consumer what) times (m.seek t rest n k) 0 s
  | .assert what rest, n, k, s => if m.holds what s.pos then m.seek t rest n k s else none
  | .group body times rest, n, k, s =>
    (m.seekRounds
      (fun k s =>
        Outcome.further (m.seek t body (n + 1) k s) (m.seekLater t body (n + 1) k s))
      times n (m.seek t rest (n + 1 + body.groupCount) k) 0 ⟨s.pos, s.slots.enter n s.pos⟩).or
      (if times.min = 0 then
        m.seek t rest (n + 1 + body.groupCount) k ⟨s.pos, s.slots.skip n⟩
      else none)

/-- Search the alternatives behind the first bar. -/
def seekLater (m : Matcher) (t : Target) : Pattern → Nat → Sequel → Sequel
  | .done, _, _, _ => none
  | .bar rest, n, k, s => Outcome.further (m.seek t rest n k s) (m.seekLater t rest n k s)
  | .leaf _ _ rest, n, k, s => m.seekLater t rest n k s
  | .assert _ rest, n, k, s => m.seekLater t rest n k s
  | .group body _ rest, n, k, s => m.seekLater t rest (n + 1 + body.groupCount) k s

end

/-- Search every alternative. -/
def seekAlts (m : Matcher) (t : Target) (p : Pattern) (n : Nat) (k : Sequel) : Sequel :=
  fun s => Outcome.further (m.seek t p n k s) (m.seekLater t p n k s)

variable {m : Matcher} {t : Target} {a b b' c n : Nat} {p q rest : Pattern} {s : Place} {k : Sequel}

theorem seekCounts_eq (m : Matcher) (what : Consumer) (times : Repetition) (k : Sequel)
    (count : Nat) (s : Place) :
    m.seekCounts what times k count s =
      match m.consume what s.pos s.slots with
      | none => if count < times.min then none else k s
      | some pos =>
        if count < times.min then m.seekCounts what times k (count + 1) ⟨pos, s.slots⟩
        else if times.belowMax count ∧ s.pos < pos then
          (m.seekCounts what times k (count + 1) ⟨pos, s.slots⟩).or (k s)
        else k s := by
  rw [seekCounts]
  split <;> rename_i h <;> rw [h]

theorem seekCounts_once (m : Matcher) (what : Consumer) (k : Sequel) (s : Place) :
    m.seekCounts what .once k 0 s =
      (m.consume what s.pos s.slots).bind fun pos => k ⟨pos, s.slots⟩ := by
  rw [seekCounts_eq]
  cases m.consume what s.pos s.slots with
  | none => rfl
  | some pos =>
    have hfull : Repetition.belowMax .once 1 = false := rfl
    change m.seekCounts what .once k 1 ⟨pos, s.slots⟩ = k ⟨pos, s.slots⟩
    rw [seekCounts_eq]
    cases m.consume what pos s.slots <;> simp [Repetition.min, hfull]

theorem seekRounds_once (m : Matcher) (body : Sequel → Sequel) (g : Nat) (k : Sequel) (count : Nat)
    (s : Place) :
    m.seekRounds body .once g k count s =
      body (fun mid => k ⟨mid.pos, mid.slots.close g mid.pos⟩) s := by
  rw [seekRounds]
  simp

theorem seek_chars (m : Matcher) (t : Target) (cs : List Char) (rest : Pattern) (n : Nat)
    (k : Sequel) (s : Place) :
    m.seek t (.chars cs rest) n k s =
      (m.subject.acceptAll (cs.map t.spells) s.pos).bind fun pos => m.seek t rest n k ⟨pos, s.slots⟩ := by
  induction cs generalizing s with
  | nil => rfl
  | cons c cs ih =>
    have hone := consume_literal m t (List.cons_ne_nil c []) s.pos s.slots
    rw [List.map_singleton, Subject.acceptAll_singleton] at hone
    change m.seekCounts (t.consumer (.char c)) .once (m.seek t (.chars cs rest) n k) 0 s = _
    rw [seekCounts_once, List.map_cons, Subject.acceptAll_cons, Option.bind_assoc, ← hone]
    exact Option.bind_congr fun pos _ => ih _

theorem seekLater_of_none (hp : p.afterBar n = none) : m.seekLater t p n k s = none := by
  induction p generalizing n with
  | done => rfl
  | leaf what times rest ih | assert what rest ih | group body times rest _ ih => exact ih hp
  | bar rest _ => cases hp

theorem seekLater_of_some {n' : Nat} (hp : p.afterBar n = some (n', q)) :
    m.seekLater t p n k s = m.seekAlts t q n' k s := by
  induction p generalizing n with
  | done => cases hp
  | leaf what times rest ih | assert what rest ih | group body times rest _ ih => exact ih hp
  | bar rest _ =>
    obtain ⟨rfl, rfl⟩ : n = n' ∧ rest = q := by simpa [Pattern.afterBar] using hp
    rfl

theorem firstOf_eq_or (a b : Option Outcome) : firstOf (some a) (some b) = some (a.or b) := by
  cases a <;> rfl

/-- Where the recursion goes on as the sequel says, it repeats a consumer as the sequel is
searched. -/
theorem playCounts_eq_seekCounts {what : Consumer} {times : Repetition} {count : Nat}
    (h : ∀ next, m.Repeats what times s.slots count s.pos next →
      m.play (Place.thread ⟨next, s.slots⟩ (a + 1)) = some (k ⟨next, s.slots⟩)) :
    m.playCounts (s.thread a) what times count = some (m.seekCounts what times k count s) := by
  fun_induction seekCounts m what times k count s with
  | case1 count s hc hmin =>
    rw [playCounts_thread, hc]
    simp only [if_pos hmin]
  | case2 count s hc hmin =>
    rw [playCounts_thread, hc]
    simp only [if_neg hmin]
    exact h s.pos (.stop (Nat.le_of_not_lt hmin))
  | case3 count s pos hc hmin ih =>
    rw [playCounts_thread, hc]
    simp only [if_pos hmin]
    exact ih fun next hnext => h next (.need hmin hc hnext)
  | case4 count s pos hc hmin hmore ih =>
    have hle := Nat.le_of_not_lt hmin
    have hstop : m.play (s.thread (a + 1)) = some (k s) := h s.pos (.stop hle)
    rw [playCounts_thread, hc]
    simp only [if_neg hmin, if_pos hmore, hstop]
    rw [ih fun next hnext => h next (.more hle hmore.1 hc hmore.2 hnext), firstOf_eq_or]
  | case5 count s pos hc hmin hmore =>
    rw [playCounts_thread, hc]
    simp only [if_neg hmin, if_neg hmore]
    exact h s.pos (.stop (Nat.le_of_not_lt hmin))

/-- The instructions from `a` up to `b` search a part, whatever follows them. -/
def Computes (m : Matcher) (t : Target) : Part → Nat → Nat → Prop
  | .seq p n, a, b => ∀ s k, s.slots.size = m.program.groups.size →
      (∀ s', m.Walk t (.seq p n) s s' → m.play (s'.thread b) = some (k s')) →
      m.play (s.thread a) = some (m.seek t p n k s)
  | .alts p n, a, b => ∀ s k, s.slots.size = m.program.groups.size →
      (∀ s', m.Walk t (.alts p n) s s' → m.play (s'.thread b) = some (k s')) →
      m.play (s.thread a) = some (m.seekAlts t p n k s)
  | .chain p n, a, b => ∀ s k, s.slots.size = m.program.groups.size →
      (∀ s', m.Walk t (.alts p n) s s' → m.play (s'.thread b) = some (k s')) →
      ∀ best, m.playBranches a s.pos s.slots best =
        some (Outcome.further best (m.seekAlts t p n k s))
  | .rounds _ _ _ _, _, _ => True

theorem computes_run {cs : List Char} (hcs : cs ≠ [])
    (hi : m.program.insts[a]? = some (.ofAtom (.consume (t.literal cs))))
    (hrest : m.Computes t (.seq rest n) (a + 1) b) :
    m.Computes t (.seq (.chars cs rest) n) a b := by
  intro s k hs hk
  have hcounts : m.playCounts (s.thread a) (t.literal cs) .once 0 =
      some (m.seekCounts (t.literal cs) .once (m.seek t rest n k) 0 s) := by
    refine playCounts_eq_seekCounts fun next hnext => hrest _ _ hs fun s' hw => hk s' ?_
    rw [repeats_once, consume_literal m t hcs] at hnext
    exact walk_chars.mpr ⟨next, hnext, hw⟩
  rw [show m.play (s.thread a) = _ from play_consume hi, seek_chars]
  exact hcounts.trans (by rw [seekCounts_once, consume_literal m t hcs])

theorem computes_leaf {what : Leaf} {times : Repetition}
    (hi : m.program.insts[a]? = some ⟨.consume (t.consumer what), times⟩)
    (hrest : m.Computes t (.seq rest n) (a + 1) b) :
    m.Computes t (.seq (.leaf what times rest) n) a b := by
  intro s k hs hk
  rw [show m.play (s.thread a) = _ from play_consume hi]
  exact playCounts_eq_seekCounts fun next hnext => hrest _ _ hs fun s' hw => hk s' (.leaf hnext hw)

theorem computes_assert {what : Assertion}
    (hi : m.program.insts[a]? = some (.ofAtom (.assert what)))
    (hrest : m.Computes t (.seq rest n) (a + 1) b) :
    m.Computes t (.seq (.assert what rest) n) a b := by
  intro s k hs hk
  rw [show m.play (s.thread a) = if m.holds what s.pos then m.play (s.thread (a + 1))
    else some none from play_assert hi]
  simp only [seek]
  split
  · rename_i hw
    exact hrest s k hs fun s' hwalk => hk s' (.assert hw hwalk)
  · rfl

theorem play_eq_seekRounds {body : Pattern} {times : Repetition} {g count : Nat}
    {stop : Option Nat} (hbody : m.Computes t (.alts body (g + 1)) (a + 1) c)
    (hl : m.program.insts[c]? = some ⟨.leave g, times⟩) (hg : m.program.groups[g]? = some ⟨a, c⟩)
    (hs : s.slots.size = m.program.groups.size)
    (hslot : s.slots[g]? = some ⟨count, some s.pos, stop⟩)
    (hk : ∀ s', m.Walk t (.rounds body times g count) s s' →
      m.play (s'.thread (c + 1)) = some (k s')) :
    m.play (s.thread (a + 1)) =
      some (m.seekRounds (m.seekAlts t body (g + 1)) times g k count s) := by
  -- An iteration is followed by another one only if it has consumed something.
  induction hn : m.subject.size - s.pos using Nat.strongRecOn generalizing s count stop with
  | ind j ih =>
    subst hn
    rw [seekRounds]
    refine hbody s _ hs fun mid hmid => ?_
    have hmids := hmid.size_eq.trans hs
    have hmidslot : mid.slots[g]? = some ⟨count, some s.pos, stop⟩ :=
      (hmid.slot_eq (Or.inl (Nat.lt_succ_self g))).trans hslot
    have hbounds := hmid.bounds
    by_cases ho : times = .once
    · subst ho
      rw [play_leave_once_thread hl hmidslot hg, if_pos rfl]
      exact hk _ (.once hmid)
    · rw [play_leave_thread hl ho hmidslot hg, if_neg ho]
      by_cases hpos : mid.pos = s.pos
      · rw [if_pos (congrArg some hpos.symm), if_pos hpos]
        by_cases hcount : count < max times.min 1
        · rw [if_neg (Nat.not_le.mpr hcount), if_pos hcount]
          exact hk _ (.empty ho hmid hpos hcount)
        · rw [if_pos (Nat.not_lt.mp hcount), if_neg hcount]
      · rw [if_neg fun h => hpos (Option.some.inj h).symm, if_neg hpos]
        have hfinish : times.min ≤ count + 1 ∨ times.belowMax (count + 1) = false →
            m.play (Place.thread ⟨mid.pos, mid.slots.finish g mid.pos⟩ (c + 1)) =
              some (k ⟨mid.pos, mid.slots.finish g mid.pos⟩) :=
          fun hcount => hk _ (.enough ho hmid hpos hcount)
        by_cases hmax : times.belowMax (count + 1) = true
        · have hahead : s.pos < mid.pos ∧ mid.pos ≤ m.subject.size := by omega
          have hrestart : (mid.slots.restart g mid.pos)[g]? =
              some ⟨count + 1, some mid.pos, some mid.pos⟩ :=
            Slots.getElem?_restart hmidslot _
          have hagain : m.play (Place.thread ⟨mid.pos, mid.slots.restart g mid.pos⟩ (a + 1)) =
              some (m.seekRounds (m.seekAlts t body (g + 1)) times g k (count + 1)
                ⟨mid.pos, mid.slots.restart g mid.pos⟩) := by
            refine ih _ ?_ (by simpa using hmids) hrestart
              (fun s' hw => hk s' (.again ho hmid hpos hmax hw)) rfl
            simp only
            omega
          rw [if_pos hmax, if_pos hmax, dif_pos hahead, hagain]
          split
          · rename_i hmin
            rw [hfinish (Or.inl hmin), firstOf_eq_or]
          · rw [firstOf_eq_or]
        · rw [if_neg hmax, if_neg hmax]
          exact hfinish (Or.inr (by simpa using hmax))

theorem computes_group {body : Pattern} {times : Repetition}
    (hi : m.program.insts[a]? = some ⟨.enter n, times⟩)
    (hbody : m.Computes t (.alts body (n + 1)) (a + 1) c)
    (hl : m.program.insts[c]? = some ⟨.leave n, times⟩) (hg : m.program.groups[n]? = some ⟨a, c⟩)
    (hrest : m.Computes t (.seq rest (n + 1 + body.groupCount)) (c + 1) b) :
    m.Computes t (.seq (.group body times rest) n) a b := by
  intro s k hs hk
  obtain ⟨slot, hslot⟩ := getElem?_slots hs hg
  have hplay : m.play (s.thread a) =
      firstOf (m.play (Place.thread ⟨s.pos, s.slots.enter n s.pos⟩ (a + 1)))
        (if times.min = 0 then m.play (Place.thread ⟨s.pos, s.slots.skip n⟩ (c + 1))
        else some none) :=
    play_enter hi hslot hg
  have henter := Slots.getElem?_enter hslot s.pos
  have hrounds : m.play (Place.thread ⟨s.pos, s.slots.enter n s.pos⟩ (a + 1)) =
      some (m.seekRounds (m.seekAlts t body (n + 1)) times n
        (m.seek t rest (n + 1 + body.groupCount) k) 0 ⟨s.pos, s.slots.enter n s.pos⟩) := by
    refine play_eq_seekRounds hbody hl hg (by simpa using hs) henter fun mid hmid => ?_
    refine hrest mid k (hmid.size_eq.trans (by simpa using hs)) fun s' hw => ?_
    exact hk s' (.group hmid hw)
  rw [hplay, hrounds]
  by_cases hmin : times.min = 0
  · rw [if_pos hmin, hrest ⟨s.pos, s.slots.skip n⟩ k (by simpa using hs)
      fun s' hw => hk s' (.skip hmin hw), firstOf_eq_or, seek, if_pos hmin]
    rfl
  · rw [if_neg hmin, firstOf_eq_or, seek, if_neg hmin]
    rfl

theorem computes_only (hp : p.afterBar n = none) (hseq : m.Computes t (.seq p n) a b) :
    m.Computes t (.alts p n) a b := by
  intro s k hs hk
  rw [hseq s k hs fun s' hw => hk s' (.here hw), seekAlts, seekLater_of_none hp]
  rfl

theorem computes_headed (hlaid : Laid m.program t (.chain p n) a b)
    (hchain : m.Computes t (.chain p n) a b) : m.Computes t (.alts p n) a b := by
  intro s k hs hk
  obtain ⟨d, hi⟩ := hlaid.chain_head
  rw [show m.play (s.thread a) = m.playBranches a s.pos s.slots none from play_branch hi,
    hchain s k hs hk, Outcome.further_none]

theorem computes_last {d : Nat} (hp : p.afterBar n = none)
    (hi : m.program.insts[a]? = some (.ofAtom (.branch (d + 1)))) (hd : a + (d + 1) = b)
    (hseq : m.Computes t (.seq p n) (a + 1) b)
    (he : m.program.insts[b]? = some (.ofAtom (.branch 0))) :
    m.Computes t (.chain p n) a (b + 1) := by
  intro s k hs hk best
  have hplay : m.play ⟨a + 1, s.pos, s.slots⟩ = some (m.seek t p n k s) := by
    refine hseq s k hs fun s' hw => ?_
    rw [show m.play (s'.thread b) = m.play (s'.thread (b + 1)) from play_branch_zero he]
    exact hk s' (.here hw)
  rw [playBranches_eq, hplay, Option.bind_some, playFollowing, nextBranch_last hi (hd ▸ he),
    seekAlts, seekLater_of_none hp]
  rfl

theorem computes_more {n' d g : Nat} {span : GroupSpan} (hp : p.afterBar n = some (n', q))
    (hi : m.program.insts[a]? = some (.ofAtom (.branch (d + 1)))) (hd : a + (d + 1) = b + 1)
    (hseq : m.Computes t (.seq p n) (a + 1) b)
    (hj : m.program.insts[b]? = some (.ofAtom (.join g)))
    (hg : m.program.groups[g]? = some span) (hstop : span.stop = c)
    (hlaid : Laid m.program t (.chain q n') (b + 1) c)
    (hchain : m.Computes t (.chain q n') (b + 1) c) : m.Computes t (.chain p n) a c := by
  intro s k hs hk best
  obtain ⟨d', hhead⟩ := hlaid.chain_head
  have hplay : m.play ⟨a + 1, s.pos, s.slots⟩ = some (m.seek t p n k s) := by
    refine hseq s k hs fun s' hw => ?_
    rw [show m.play (s'.thread b) = m.play (s'.thread c) from hstop ▸ play_join hj hg]
    exact hk s' (.here hw)
  have hothers := hchain s k hs fun s' hw => hk s' (.later hp hw)
  rw [playBranches_eq, hplay, Option.bind_some, playFollowing, nextBranch_more hi (hd ▸ hhead),
    seekAlts, seekLater_of_some hp, ← Outcome.further_assoc]
  simp only [hd, hothers]

theorem computes_of_laid {part : Part} (h : Laid m.program t part a b) : m.Computes t part a b := by
  induction h with
  | done => exact fun s k _ hk => hk s .done
  | bar => exact fun s k _ hk => hk s .bar
  | run hcs hi _ ih => exact computes_run hcs hi ih
  | leaf hi _ ih => exact computes_leaf hi ih
  | assert hi _ ih => exact computes_assert hi ih
  | group hi _ hl hg _ ihbody ihrest => exact computes_group hi ihbody hl hg ihrest
  | only hp _ ih => exact computes_only hp ih
  | headed hlaid ih => exact computes_headed hlaid ih
  | last hp hi hd _ he ih => exact computes_last hp hi hd ih he
  | more hp hi hd _ hj hg hstop hlaid ihseq ihchain =>
    exact computes_more hp hi hd ihseq hj hg hstop hlaid ihchain

def accepted : Sequel := fun s => some ⟨s.pos, s.slots.close 0 s.pos⟩

def found (m : Matcher) (t : Target) (p : Pattern) (pos : Nat) : Option Outcome :=
  m.seekAlts t p 1 accepted (m.startPlace pos)

theorem play_eq_found (hm : m.program = .ofPattern t p) (pos : Nat) :
    m.play (m.startThread pos) = some (m.found t p pos) := by
  obtain ⟨stop, hlaid, haccept, -⟩ := Program.laid_ofPattern t p
  rw [← hm] at hlaid haccept
  exact computes_of_laid hlaid (m.startPlace pos) accepted (size_startSlots m pos)
    fun s hw => play_of_walk hm haccept hw

end Matcher

end PosixRegex
