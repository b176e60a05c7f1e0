import PosixRegex.Proofs.Pattern.Printing
import PosixRegex.Proofs.Search.FirstMatch
import PosixRegex.Proofs.Search.Mirror
import PosixRegex.Proofs.Search.Nesting

namespace PosixRegex

namespace Leaf

theorem isBackRef_of_refs {what : Leaf} (h : what.refs = []) : what.isBackRef = false := by
  cases what with
  | char | any | bracket => rfl
  | backRef g => cases h

end Leaf

namespace Pattern

/-- The second pattern is the first one with one of its items in parentheses, behind which the
quantifier of the item stands; it allows a repetition. The new group is group `g` where the groups
are numbered from `n` on. -/
inductive Encloses : (n g : Nat) → Pattern → Pattern → Prop
  | here {n : Nat} {what : Leaf} {times : Repetition} {rest : Pattern} :
    times.belowMax 0 = true →
    Encloses n n (.leaf what times rest) (.group (.leaf what .once .done) times rest)
  | leaf {n g : Nat} {what : Leaf} {times : Repetition} {p q : Pattern} :
    Encloses n g p q → Encloses n g (.leaf what times p) (.leaf what times q)
  | assert {n g : Nat} {what : Assertion} {p q : Pattern} :
    Encloses n g p q → Encloses n g (.assert what p) (.assert what q)
  | body {n g : Nat} {p q rest : Pattern} {times : Repetition} :
    Encloses (n + 1) g p q → Encloses n g (.group p times rest) (.group q times rest)
  | rest {n g : Nat} {body p q : Pattern} {times : Repetition} :
    Encloses (n + 1 + body.groupCount) g p q →
    Encloses n g (.group body times p) (.group body times q)
  | bar {n g : Nat} {p q : Pattern} : Encloses n g p q → Encloses n g (.bar p) (.bar q)

variable {n g : Nat} {p q : Pattern}

theorem Encloses.groupCount_eq (h : Encloses n g p q) : q.groupCount = p.groupCount + 1 := by
  induction h with
  | here => simp only [groupCount]; omega
  | leaf _ ih | assert _ ih | bar _ ih => exact ih
  | body _ ih | rest _ ih => simp only [groupCount, ih]; omega

theorem Encloses.bounds (h : Encloses n g p q) : n ≤ g ∧ g ≤ n + p.groupCount := by
  induction h with
  | here => exact ⟨Nat.le_refl _, Nat.le_add_right _ _⟩
  | leaf _ ih | assert _ ih | bar _ ih => exact ih
  | body _ ih | rest _ ih => simp only [groupCount]; omega

theorem Encloses.print (h : Encloses n g p q) : ∃ (what : Leaf) (before after : List Char),
    p.print = before ++ (what.print ++ after) ∧
      q.print = before ++ '(' :: (what.print ++ ')' :: after) := by
  induction h with
  | @here n what times rest _ =>
    exact ⟨what, [], times.suffix.toList ++ rest.print, rfl, by
      simp only [Pattern.print, Repetition.suffix, String.toList_empty, List.append_nil,
        List.nil_append]⟩
  | @leaf n g what times p q _ ih =>
    obtain ⟨item, before, after, hp, hq⟩ := ih
    exact ⟨item, what.print ++ (times.suffix.toList ++ before), after, by simp [Pattern.print, hp],
      by simp [Pattern.print, hq]⟩
  | @assert n g what p q _ ih =>
    obtain ⟨item, before, after, hp, hq⟩ := ih
    exact ⟨item, what.print ++ before, after, by simp [Pattern.print, hp],
      by simp [Pattern.print, hq]⟩
  | @body n g p q rest times _ ih =>
    obtain ⟨item, before, after, hp, hq⟩ := ih
    exact ⟨item, '(' :: before, after ++ ')' :: (times.suffix.toList ++ rest.print),
      by simp [Pattern.print, hp], by simp [Pattern.print, hq]⟩
  | @rest n g body p q times _ ih =>
    obtain ⟨item, before, after, hp, hq⟩ := ih
    exact ⟨item, '(' :: (body.print ++ ')' :: (times.suffix.toList ++ before)), after,
      by simp [Pattern.print, hp], by simp [Pattern.print, hq]⟩
  | @bar n g p q _ ih =>
    obtain ⟨item, before, after, hp, hq⟩ := ih
    exact ⟨item, '|' :: before, after, by simp [Pattern.print, hp], by simp [Pattern.print, hq]⟩

end Pattern

namespace Slots

/-- The second slots are the first ones without that of group `g`. -/
structure Omits (g : Nat) (slots slots' : Slots) : Prop where
  before (j : Nat) : j < g → slots[j]? = slots'[j]?
  behind (j : Nat) : g ≤ j → slots[j + 1]? = slots'[j]?

variable {g j d : Nat} {slots slots' : Slots}

theorem Omits.modify (h : slots.Omits g slots') (hj : j < g ∧ d = 0 ∨ g ≤ j ∧ d = 1)
    (f : Slot → Slot) : Omits g (Array.modify slots (j + d) f) (Array.modify slots' j f) where
  before i hi := by
    rw [Array.getElem?_modify, Array.getElem?_modify, h.before i hi]
    by_cases hij : j = i
    · rw [if_pos hij, if_pos (by omega)]
    · rw [if_neg hij, if_neg (by omega)]
  behind i hi := by
    rw [Array.getElem?_modify, Array.getElem?_modify, h.behind i hi]
    by_cases hij : j = i
    · rw [if_pos hij, if_pos (by omega)]
    · rw [if_neg hij, if_neg (by omega)]

theorem Omits.modify_self (h : slots.Omits g slots') (f : Slot → Slot) :
    Omits g (Array.modify slots g f) slots' where
  before i hi := by rw [getElem?_modify_of_ne (by omega), h.before i hi]
  behind i hi := by rw [getElem?_modify_of_ne (by omega), h.behind i hi]

theorem omits_replicate {n : Nat} (hg : g ≤ n) :
    Omits g (Array.replicate (n + 1) {}) (Array.replicate n {}) where
  before i hi := by
    simp only [Array.getElem?_replicate]
    rw [if_pos (by omega), if_pos (by omega)]
  behind i hi := by
    simp only [Array.getElem?_replicate, Nat.add_lt_add_iff_right]

end Slots

/-- The same spans are reported where both report any, but for that of group `g`, which the second
match does not have. At most `limit` and `limit'` spans are reported. -/
structure Captures.Omits (g limit limit' : Nat) (enclosed plain : Captures) : Prop where
  whole : enclosed.whole = plain.whole
  before (j : Nat) : j < g → j < limit → j < limit' → enclosed.get? j = plain.get? j
  behind (j : Nat) : g ≤ j → j + 1 < limit → j < limit' → enclosed.get? (j + 1) = plain.get? j

theorem Slots.Omits.captures {g : Nat} {slots slots' : Slots} (h : slots.Omits g slots')
    (hg : 1 ≤ g) (limit limit' : Nat) :
    (Captures.ofSlots slots limit).Omits g limit limit' (.ofSlots slots' limit') where
  whole := by
    rw [Captures.whole, Captures.whole, Captures.get?_ofSlots, Captures.get?_ofSlots,
      if_pos (by omega), if_pos (by omega), Slots.span?, Slots.span?, h.before 0 hg]
  before j hj hlt hlt' := by
    rw [Captures.get?_ofSlots, Captures.get?_ofSlots, if_pos (by omega), if_pos (by omega),
      Slots.span?, Slots.span?, h.before j hj]
  behind j hj hlt hlt' := by
    rw [Captures.get?_ofSlots, Captures.get?_ofSlots, if_pos (by omega), if_pos (by omega),
      Slots.span?, Slots.span?, h.behind j hj]

structure Outcome.Omits (g : Nat) (o o' : Outcome) : Prop where
  stop : o.stop = o'.stop
  slots : o.slots.Omits g o'.slots

namespace Matcher

variable {m m' : Matcher} {t : Target} {p q : Pattern} {what : Leaf} {times : Repetition}
  {g n d low bound count pos : Nat} {s s' : Place} {k k' : Sequel}
  {same : Outcome → Outcome → Prop}

/-- Places of both searches. -/
structure Omits (g : Nat) (s s' : Place) : Prop where
  pos : s.pos = s'.pos
  slots : s.slots.Omits g s'.slots

theorem Omits.modify_self (hs : Omits g s s') (f : Slot → Slot) :
    Omits g ⟨s.pos, Array.modify s.slots g f⟩ s' :=
  ⟨hs.pos, hs.slots.modify_self f⟩

/-- Both searches do the same with a part whose groups all stand before group `g`, or all behind
it. -/
theorem mirrors_omits (h : m.Shares m')
    (hgroups : ∀ j, low ≤ j → j < bound → j < g ∧ d = 0 ∨ g ≤ j ∧ d = 1) :
    Mirrors m m' t t (fun what => what.refs = []) d low bound (Omits g) :=
  h.mirrors (fun _ _ hs => hs.pos) (fun _ _ _ hs => ⟨rfl, hs.slots⟩)
    (fun _ _ _ _ hwhat _ hg => absurd (hwhat ▸ hg) List.not_mem_nil)
    (fun _ _ j f hs hj => ⟨hs.pos, hs.slots.modify (hgroups j hj.1 hj.2) f⟩)

theorem mirrors_before (h : m.Shares m') (g : Nat) :
    Mirrors m m' t t (fun what => what.refs = []) 0 0 g (Omits g) :=
  mirrors_omits h fun _ _ hj => Or.inl ⟨hj, rfl⟩

theorem mirrors_behind (h : m.Shares m') (g bound : Nat) :
    Mirrors m m' t t (fun what => what.refs = []) 1 g bound (Omits g) :=
  mirrors_omits h fun _ hj _ => Or.inr ⟨hj, rfl⟩

def seekOne (m : Matcher) (what : Consumer) (k : Sequel) : Sequel :=
  fun s => (m.consume what s.pos s.slots).bind fun pos => k ⟨pos, s.slots⟩

theorem seekAlts_one (m : Matcher) (t : Target) (what : Leaf) (n : Nat) :
    m.seekAlts t (.leaf what .once .done) n = m.seekOne (t.consumer what) := by
  funext k s
  exact seekCounts_once m (t.consumer what) k s

theorem seekRounds_one {what : Consumer} (hwhat : what.isSingle = true) (hne : times ≠ .once) :
    m.seekRounds (m.seekOne what) times g k count s =
      (m.consume what s.pos s.slots).bind fun pos =>
        if times.belowMax (count + 1) then
          (m.seekRounds (m.seekOne what) times g k (count + 1)
            ⟨pos, s.slots.restart g pos⟩).or
            (if times.min ≤ count + 1 then k ⟨pos, s.slots.finish g pos⟩ else none)
        else k ⟨pos, s.slots.finish g pos⟩ := by
  rw [seekRounds]
  refine Option.bind_congr fun pos hpos => ?_
  have hahead := consume_bounds_of_isSingle hwhat hpos
  simp only [if_neg hne, if_neg (Nat.ne_of_gt hahead.1), dif_pos hahead]

theorem seekCounts_full {what : Consumer} (hmin : times.min ≤ count)
    (hmax : times.belowMax count = false) : m.seekCounts what times k count s = k s := by
  rw [seekCounts_eq, hmax]
  cases m.consume what s.pos s.slots with
  | none => exact if_neg (Nat.not_lt.mpr hmin)
  | some pos => simp [Nat.not_lt.mpr hmin]

/-- Behind `count` repetitions the group is entered once more or left, at places where nothing but
its slot differs, just as one more repetition is tried or none. -/
theorem rel_rounds (h : m.Shares m') (hwhat : what.refs = []) (hordered : times.Ordered)
    (hne : times ≠ .once) (hk : FindsSame (Omits g) same k k') {left : Place}
    (hmax : times.belowMax count = true) (hs : Omits g s s') (hleft : Omits g left s') :
    Option.Rel same
      ((m.seekRounds (m.seekOne (t.consumer what)) times g k count s).or
        (if times.min ≤ count then k left else none))
      (m'.seekCounts (t.consumer what) times k' count s') := by
  have hsingle := isSingle_consumer (t := t) (Leaf.isBackRef_of_refs hwhat)
  have hmirrors := mirrors_before (t := t) h g
  induction hn : m.subject.size - s.pos using Nat.strongRecOn generalizing s s' left count with
  | ind _ ih =>
    subst hn
    rw [seekRounds_one hsingle hne, seekCounts_eq]
    cases hc : m.consume (t.consumer what) s.pos s.slots with
    | none =>
      rw [hmirrors.consume_none hwhat hs hc, Option.bind_none, Option.none_or]
      by_cases hmin : times.min ≤ count
      · simp only [if_pos hmin, if_neg (Nat.not_lt.mpr hmin)]
        exact hk hleft
      · simp only [if_neg hmin, if_pos (Nat.not_le.mp hmin)]
        exact .none
    | some pos =>
      obtain ⟨next, hc', hnext⟩ := hmirrors.consume_some hwhat hs hc
      have hbounds := consume_bounds_of_isSingle hsingle hc
      have hlt : s'.pos < next := (hmirrors.lt_iff hs hnext).mp hbounds.1
      -- With or without another iteration behind it, this one leads to the next count.
      have hround : Option.Rel same
          (if times.belowMax (count + 1) then
            (m.seekRounds (m.seekOne (t.consumer what)) times g k (count + 1)
              ⟨pos, s.slots.restart g pos⟩).or
              (if times.min ≤ count + 1 then k ⟨pos, s.slots.finish g pos⟩ else none)
          else k ⟨pos, s.slots.finish g pos⟩)
          (m'.seekCounts (t.consumer what) times k' (count + 1) ⟨next, s'.slots⟩) := by
        cases hmore : times.belowMax (count + 1) with
        | true =>
          rw [if_pos rfl]
          exact ih _ (by simp only; omega) hmore (hnext.modify_self _) (hnext.modify_self _) rfl
        | false =>
          rw [if_neg Bool.false_ne_true,
            seekCounts_full (Repetition.min_le_of_full hordered hmore) hmore]
          exact hk (hnext.modify_self _)
      rw [hc', Option.bind_some]
      by_cases hmin : times.min ≤ count
      · simp only [if_pos hmin, if_neg (Nat.not_lt.mpr hmin), if_pos (And.intro hmax hlt)]
        exact rel_or hround (hk hleft)
      · simp only [if_neg hmin, if_pos (Nat.not_le.mp hmin), Option.or_none]
        exact hround

theorem rel_group {rest : Pattern} (h : m.Shares m') (hwhat : what.refs = [])
    (hordered : times.Ordered) (hmax : times.belowMax 0 = true)
    (hrest : FindsSame (Omits n) same (m.seek t rest (n + 1) k) (m'.seek t rest n k')) :
    FindsSame (Omits n) same (m.seek t (.group (.leaf what .once .done) times rest) n k)
      (m'.seek t (.leaf what times rest) n k') := by
  intro s s' hs
  have hgroup : m.seek t (.group (.leaf what .once .done) times rest) n k s =
      (m.seekRounds (m.seekAlts t (.leaf what .once .done) (n + 1)) times n
        (m.seek t rest (n + 1) k) 0 ⟨s.pos, s.slots.enter n s.pos⟩).or
        (if times.min = 0 then m.seek t rest (n + 1) k ⟨s.pos, s.slots.skip n⟩ else none) := rfl
  have hleaf : m'.seek t (.leaf what times rest) n k' s' =
      m'.seekCounts (t.consumer what) times (m'.seek t rest n k') 0 s' := rfl
  rw [hgroup, hleaf, seekAlts_one]
  have hentered : Omits n ⟨s.pos, s.slots.enter n s.pos⟩ s' := hs.modify_self _
  by_cases hne : times = .once
  · subst hne
    have hmin : Repetition.once.min ≠ 0 := Nat.one_ne_zero
    rw [seekRounds_once, seekCounts_once, if_neg hmin, Option.or_none, seekOne]
    cases hc : m.consume (t.consumer what) s.pos (s.slots.enter n s.pos) with
    | none =>
      rw [(mirrors_before h n).consume_none hwhat hentered hc]
      exact .none
    | some pos =>
      obtain ⟨next, hc', hnext⟩ := (mirrors_before h n).consume_some hwhat hentered hc
      rw [hc']
      exact hrest (hnext.modify_self _)
  · simp only [← Nat.le_zero]
    exact rel_rounds h hwhat hordered hne hrest hmax hentered (hs.modify_self _)

theorem seek_of_encloses (h : m.Shares m') (hsame : Comparable same) (hpq : p.Encloses n g q)
    {around : List Nat} (hproper : p.Proper around n) (hleaves : ∀ what ∈ p.leaves, what.refs = [])
    (hk : FindsSame (Omits g) same k k') :
    FindsSame (Omits g) same (m.seek t q n k) (m'.seek t p n k') ∧
      FindsSame (Omits g) same (m.seekLater t q n k) (m'.seekLater t p n k') := by
  -- The groups up to the item keep their numbers, and those behind it have the next ones.
  have hbefore := mirrors_before (t := t) h g
  have hbehind := mirrors_behind (t := t) h g
  induction hpq generalizing around k k' with
  | here hmax =>
    obtain ⟨hwhat, hrest⟩ := List.forall_mem_cons.mp hleaves
    obtain ⟨hfirst, hlater⟩ := (hbehind _).seek hsame _ hrest ⟨Nat.le_refl _, Nat.le_refl _⟩ hk
    exact ⟨rel_group h hwhat hproper.2.1 hmax hfirst, hlater⟩
  | leaf _ ih =>
    obtain ⟨hwhat, hrest⟩ := List.forall_mem_cons.mp hleaves
    obtain ⟨hfirst, hlater⟩ := ih hproper.2.2 hrest hk hbefore hbehind
    exact ⟨fun s s' hs => hbefore.seekCounts hwhat hfirst hs, hlater⟩
  | assert _ ih =>
    obtain ⟨hfirst, hlater⟩ := ih hproper hleaves hk hbefore hbehind
    exact ⟨hbefore.seek_assert hfirst, hlater⟩
  | body hpq ih =>
    obtain ⟨hinner, hrest⟩ := List.forall_mem_append.mp hleaves
    have hbounds := hpq.bounds
    obtain ⟨hfirst, hlater⟩ := (hbehind _).seek hsame _ hrest ⟨hbounds.2, Nat.le_refl _⟩ hk
    rw [Nat.add_assoc, ← hpq.groupCount_eq] at hfirst hlater
    refine ⟨hbefore.seek_group (fun k k' hk s s' hs => ?_) (by omega) hfirst, hlater⟩
    obtain ⟨hfirst, hlater⟩ := ih hproper.1 hinner hk hbefore hbehind
    exact rel_further hsame (hfirst hs) (hlater hs)
  | rest hpq ih =>
    obtain ⟨hinner, hrest⟩ := List.forall_mem_append.mp hleaves
    have hbounds := hpq.bounds
    obtain ⟨hfirst, hlater⟩ := ih hproper.2.2 hrest hk hbefore hbehind
    have hbody : ∀ ⦃k k'⦄, FindsSame (Omits _) same k k' → FindsSame (Omits _) same
        (m.seekAlts t _ _ k) (m'.seekAlts t _ _ k') :=
      fun k k' hk => hbefore.seekAlts hsame _ hinner ⟨Nat.zero_le _, hbounds.1⟩ hk
    exact ⟨hbefore.seek_group hbody (by omega) hfirst, hlater⟩
  | bar _ ih =>
    obtain ⟨hfirst, hlater⟩ := ih hproper hleaves hk hbefore hbehind
    exact ⟨hk, fun s s' hs => rel_further hsame (hfirst hs) (hlater hs)⟩

theorem found_of_encloses (h : m.Shares m') (hm : m.program = .ofPattern t q)
    (hm' : m'.program = .ofPattern t p) (hpq : p.Encloses 1 g q) (hproper : p.Proper [] 1)
    (hrefs : p.refs = []) (pos : Nat) :
    Option.Rel (Outcome.Omits g) (m.found t q pos) (m'.found t p pos) := by
  have hcomparable : Comparable (Outcome.Omits g) := comparable_of_stop fun _ _ ho => ho.stop
  have hbounds := hpq.bounds
  have hzero : 0 < g ∧ 0 = 0 ∨ g ≤ 0 ∧ 0 = 1 := Or.inl ⟨hbounds.1, rfl⟩
  have haccepted : FindsSame (Omits g) (Outcome.Omits g) accepted accepted := by
    intro s s' hs
    have hclose : Slots.Omits g (s.slots.close 0 s'.pos) (s'.slots.close 0 s'.pos) :=
      hs.slots.modify hzero _
    rw [accepted, accepted, hs.pos]
    exact .some ⟨rfl, hclose⟩
  have hstart : Omits g (m.startPlace pos) (m'.startPlace pos) := by
    refine ⟨rfl, ?_⟩
    have hsize : m.program.groups.size = m'.program.groups.size + 1 := by
      rw [hm, hm', Program.size_groups_ofPattern, Program.size_groups_ofPattern,
        hpq.groupCount_eq]
    have hle : g ≤ m'.program.groups.size := by
      rw [hm', Program.size_groups_ofPattern]
      omega
    simp only [startPlace, startSlots, hsize]
    exact (Slots.omits_replicate hle).modify hzero _
  obtain ⟨hfirst, hlater⟩ := seek_of_encloses h hcomparable hpq hproper
    (Pattern.refs_eq_nil_iff.mp hrefs) haccepted
  exact rel_further hcomparable (hfirst hstart) (hlater hstart)

theorem report_of_encloses (h : m.Shares m') (hm : m.program = .ofPattern t q)
    (hm' : m'.program = .ofPattern t p) (hpq : p.Encloses 1 g q) (hproper : p.Proper [] 1)
    (hrefs : p.refs = []) (start capture capture' : Nat) :
    Option.Rel (Captures.Omits g (m.captureLimit capture) (m'.captureLimit capture'))
      (m.report capture (m.firstFound t q start))
      (m'.report capture' (m'.firstFound t p start)) := by
  have hrel : Option.Rel (Outcome.Omits g) (m.firstFound t q start) (m'.firstFound t p start) := by
    rw [firstFound, firstFound, h.subject]
    exact rel_findSome? fun pos _ => found_of_encloses h hm hm' hpq hproper hrefs pos
  unfold report
  generalize m.firstFound t q start = found at hrel ⊢
  generalize m'.firstFound t p start = found' at hrel ⊢
  cases hrel with
  | none => exact .none
  | some ho => exact .some (ho.slots.captures hpq.bounds.1 _ _)

/-- Repeating an item and repeating a group around it come to the same: the match is the same, and
the other groups are reported as before, those behind the new group under the next number. -/
theorem execute_enclosed {o : Options} {l : Locale} {compileLimits : CompileLimits}
    {text text' : List Char} {plain enclosed : Program}
    (hp : Pattern.read o.dialect compileLimits text = .ok p)
    (hq : Pattern.read o.dialect compileLimits text' = .ok q)
    (hpq : p.Encloses 1 g q) (hrefs : p.refs = [])
    (hplain : Program.compile o l compileLimits text = .ok plain)
    (henclosed : Program.compile o l compileLimits text' = .ok enclosed)
    (s : Subject) (flags : ExecFlags) (limits limits' : SearchLimits) (start capture capture' : Nat)
    (hlimit : WithinLimits ((Matcher.mk enclosed l s flags).execute limits start capture))
    (hlimit' : WithinLimits ((Matcher.mk plain l s flags).execute limits' start capture')) :
    ∃ found found', (Matcher.mk enclosed l s flags).execute limits start capture = .ok found ∧
      (Matcher.mk plain l s flags).execute limits' start capture' = .ok found' ∧
      Option.Rel (Captures.Omits g ((Matcher.mk enclosed l s flags).captureLimit capture)
        ((Matcher.mk plain l s flags).captureLimit capture')) found found' := by
  obtain ⟨p', hp', rfl⟩ := Program.exists_ofPattern hplain
  obtain ⟨q', hq', rfl⟩ := Program.exists_ofPattern henclosed
  obtain rfl : p = p' := Except.ok.inj (hp.symm.trans hp')
  obtain rfl : q = q' := Except.ok.inj (hq.symm.trans hq')
  have hshares : Shares ⟨.ofPattern ⟨o, l, compileLimits.run⟩ q, l, s, flags⟩
      ⟨.ofPattern ⟨o, l, compileLimits.run⟩ p, l, s, flags⟩ := ⟨rfl, rfl, rfl, rfl⟩
  exact ⟨_, _, execute_eq_firstFound rfl (Program.connected_of_compile henclosed) hlimit,
    execute_eq_firstFound rfl (Program.connected_of_compile hplain) hlimit',
    report_of_encloses hshares rfl rfl hpq (Pattern.proper_of_read hp) hrefs start capture capture'⟩

def surrounding (item : Pattern → Pattern) : Pattern :=
  .group (item (.leaf (.char 'b') .once
    (.bar (.group (.leaf (.char 'c') .once .done) .once .done)))) .plus .done

def starred : Pattern := surrounding (.leaf (.char 'a') .star)

def starredGroup : Pattern := surrounding (.group (.leaf (.char 'a') .once .done) .star)

theorem execute_enclosed_starred :
    ∃ found, (matcherIn starredGroup ['a', 'a', 'b', 'c', 'a', 'b']).execute {} 0 4 = .ok found ∧
      Option.Rel (Captures.Omits 2 4 3) found
        (some ⟨[some ⟨0, 6⟩, some ⟨4, 6⟩, some ⟨3, 4⟩]⟩) := by
  have hplain : Program.compile { dialect := .extended } .posix {}
      ['(', 'a', '*', 'b', '|', '(', 'c', ')', ')', '+'] = .ok (matcherIn starred []).program := by
    decide
  have henclosed : Program.compile { dialect := .extended } .posix {}
      ['(', '(', 'a', ')', '*', 'b', '|', '(', 'c', ')', ')', '+'] =
      .ok (matcherIn starredGroup []).program := by decide
  have hrun : (matcherIn starred ['a', 'a', 'b', 'c', 'a', 'b']).execute {} 0 3 =
      .ok (some ⟨[some ⟨0, 6⟩, some ⟨4, 6⟩, some ⟨3, 4⟩]⟩) := by decide +kernel
  have hp : Pattern.read .extended {} ['(', 'a', '*', 'b', '|', '(', 'c', ')', ')', '+'] =
      .ok starred := by decide
  have hq : Pattern.read .extended {} ['(', '(', 'a', ')', '*', 'b', '|', '(', 'c', ')', ')', '+'] =
      .ok starredGroup := by decide
  have hpq : starred.Encloses 1 2 starredGroup := .body (.here rfl)
  obtain ⟨found, found', hfound, hfound', h⟩ := execute_enclosed hp hq hpq rfl hplain henclosed
    (.ofList ['a', 'a', 'b', 'c', 'a', 'b']) {} {} {} 0 4 3 (.of_isOk (by decide +kernel))
    (.of_isOk (by decide +kernel))
  obtain rfl := Except.ok.inj (hfound'.symm.trans hrun)
  exact ⟨found, hfound, h⟩

end Matcher

end PosixRegex
