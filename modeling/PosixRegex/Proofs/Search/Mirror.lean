import PosixRegex.Proofs.Pattern.Leaves
import PosixRegex.Proofs.Search.Seek

namespace PosixRegex

def Slots.updates : List (Nat → Slot → Slot) :=
  [fun pos slot => ⟨0, some pos, slot.stop⟩, fun _ slot => ⟨slot.count, none, none⟩,
    fun pos slot => { slot with stop := some pos },
    fun pos slot => ⟨slot.count + 1, slot.start, some pos⟩,
    fun pos slot => ⟨slot.count + 1, some pos, some pos⟩]

namespace Slots

def Within (size : Nat) (slots : Slots) : Prop :=
  ∀ (g : Nat) (slot : Slot), slots[g]? = some slot → ∀ stop, slot.stop = some stop → stop ≤ size

theorem Within.update {size pos : Nat} {slots : Slots} (h : slots.Within size)
    (hpos : pos ≤ size) {f : Nat → Slot → Slot} (hf : f ∈ updates) (g : Nat) :
    Within size (Array.modify slots g (f pos)) := by
  intro j slot hslot stop hstop
  rw [Array.getElem?_modify] at hslot
  split at hslot
  · obtain ⟨old, hold, rfl⟩ := Option.map_eq_some_iff.mp hslot
    have hle := h j old hold
    simp only [updates, List.mem_cons, List.not_mem_nil, or_false] at hf
    rcases hf with rfl | rfl | rfl | rfl | rfl
    · exact hle stop hstop
    · cases hstop
    · exact Option.some.inj hstop ▸ hpos
    · exact Option.some.inj hstop ▸ hpos
    · exact Option.some.inj hstop ▸ hpos
  · exact h j slot hslot stop hstop

theorem Within.mono {size size' : Nat} {slots : Slots} (h : slots.Within size)
    (hle : size ≤ size') : slots.Within size' :=
  fun g slot hslot stop hstop => Nat.le_trans (h g slot hslot stop hstop) hle

end Slots

namespace Matcher

structure Shares (m m' : Matcher) : Prop where
  locale : m.locale = m'.locale
  subject : m.subject = m'.subject
  flags : m.flags = m'.flags
  newline : m.program.flags.newlineSensitive = m'.program.flags.newlineSensitive

theorem Shares.symm {m m' : Matcher} (h : m.Shares m') : m'.Shares m :=
  ⟨h.locale.symm, h.subject.symm, h.flags.symm, h.newline.symm⟩

theorem Shares.holds {m m' : Matcher} (h : m.Shares m') (what : Assertion) (pos : Nat) :
    m.holds what pos = m'.holds what pos := by
  cases what <;>
    simp only [Matcher.holds, atLineStart, atLineEnd, atWordEdge, h.locale, h.subject, h.flags,
      h.newline]

theorem Shares.consume {m m' : Matcher} {t : Target} (h : m.Shares m') {what : Leaf} {slots slots' : Slots}
    (hslots : ∀ g ∈ what.refs, slots[g]? = slots'[g]?) (pos : Nat) :
    m.consume (t.consumer what) pos slots = m'.consume (t.consumer what) pos slots' := by
  cases what with
  | char c =>
    have hne := List.cons_ne_nil c []
    exact (consume_literal m t hne pos slots).trans
      (h.subject ▸ (consume_literal m' t hne pos slots').symm)
  | any =>
    simp only [Target.consumer]
    split <;> simp only [Matcher.consume, h.subject]
  | bracket b =>
    simp only [Target.consumer, Bracket.consumer]
    split <;> simp only [Matcher.consume, h.subject, h.locale]
  | backRef g =>
    have hg := hslots g List.mem_cons_self
    have hrepeats : m.repeats t = m'.repeats t := by
      funext x c
      simp only [repeats, h.locale]
    rw [consume_backRef, consume_backRef, hrepeats, captured?, captured?, hg, h.subject]

/-- From places that are alike both matchers do the same. The items are those in `leaves`, and group
`g` of the second matcher, where `low ≤ g < bound`, is group `g + d` of the first one. -/
structure Mirrors (m m' : Matcher) (t t' : Target) (leaves : Leaf → Prop) (d low bound : Nat)
    (alike : Place → Place → Prop) : Prop where
  lt_iff {s s' mid mid' : Place} (hs : alike s s') (hmid : alike mid mid') :
    s.pos < mid.pos ↔ s'.pos < mid'.pos
  inside {s s' : Place} (hs : alike s s') :
    s.pos ≤ m.subject.size ↔ s'.pos ≤ m'.subject.size
  holds {s s' : Place} (hs : alike s s') (what : Assertion) :
    m.holds what s.pos = m'.holds what s'.pos
  consume {s s' : Place} {what : Leaf} (hs : alike s s') (hwhat : leaves what) :
    Option.Rel (fun pos pos' => alike ⟨pos, s.slots⟩ ⟨pos', s'.slots⟩)
      (m.consume (t.consumer what) s.pos s.slots) (m'.consume (t'.consumer what) s'.pos s'.slots)
  update {s s' : Place} {g : Nat} {f : Nat → Slot → Slot} (hs : alike s s')
    (hg : low ≤ g ∧ g < bound) (hf : f ∈ Slots.updates) :
    alike ⟨s.pos, Array.modify s.slots (g + d) (f s.pos)⟩
      ⟨s'.pos, Array.modify s'.slots g (f s'.pos)⟩

theorem Shares.mirrors {m m' : Matcher} {t : Target} {leaves : Leaf → Prop} {d low bound : Nat}
    {alike : Place → Place → Prop} (h : m.Shares m')
    (hpos : ∀ ⦃s s'⦄, alike s s' → s.pos = s'.pos)
    (hmove : ∀ ⦃s s'⦄ (pos : Nat), alike s s' → alike ⟨pos, s.slots⟩ ⟨pos, s'.slots⟩)
    (hrefs : ∀ ⦃s s' what⦄, alike s s' → leaves what → ∀ g ∈ what.refs, s.slots[g]? = s'.slots[g]?)
    (hupdate : ∀ ⦃s s' g⦄ (f : Slot → Slot), alike s s' → low ≤ g ∧ g < bound →
      alike ⟨s.pos, Array.modify s.slots (g + d) f⟩ ⟨s'.pos, Array.modify s'.slots g f⟩) :
    Mirrors m m' t t leaves d low bound alike where
  lt_iff := by
    intro s s' mid mid' hs hmid
    rw [hpos hs, hpos hmid]
  inside := by
    intro s s' hs
    rw [hpos hs, h.subject]
  holds := by
    intro s s' hs what
    rw [hpos hs]
    exact h.holds what s'.pos
  consume := by
    intro s s' what hs hwhat
    rw [h.consume (hrefs hs hwhat), hpos hs]
    cases m'.consume (t.consumer what) s'.pos s'.slots with
    | none => exact .none
    | some next => exact .some (hmove next hs)
  update := by
    intro s s' g f hs hg _
    have hnext := hupdate (f s'.pos) hs hg
    rw [hpos hs] at hnext ⊢
    exact hnext

/-- The outcomes agree on which one of two ends further. -/
def Comparable (same : Outcome → Outcome → Prop) : Prop :=
  ∀ ⦃o o' b b'⦄, same o o' → same b b' → (b.stop < o.stop ↔ b'.stop < o'.stop)

variable {m m' : Matcher} {t t' : Target} {leaves : Leaf → Prop} {d low bound : Nat}
  {alike : Place → Place → Prop} {same : Outcome → Outcome → Prop}

theorem comparable_of_stop (h : ∀ ⦃o o'⦄, same o o' → o.stop = o'.stop) : Comparable same := by
  intro o o' b b' ho hb
  rw [h ho, h hb]

theorem rel_or {a a' b b' : Option Outcome} (h : Option.Rel same a a')
    (h' : Option.Rel same b b') : Option.Rel same (a.or b) (a'.or b') := by
  cases h with
  | some h => exact .some h
  | none => exact h'

theorem rel_further (hsame : Comparable same) {a a' b b' : Option Outcome}
    (h : Option.Rel same a a') (h' : Option.Rel same b b') :
    Option.Rel same (Outcome.further a b) (Outcome.further a' b') := by
  cases h' with
  | none => exact h
  | some h' =>
    cases h with
    | none => exact .some h'
    | some h =>
      simp only [Outcome.further, Outcome.better, hsame h' h]
      split
      · exact .some h'
      · exact .some h

theorem eq_map_of_rel {f : Outcome → Outcome} {a b : Option Outcome}
    (h : Option.Rel (fun o o' => o = f o') a b) : a = b.map f := by
  cases h with
  | none => rfl
  | some h => exact congrArg some h

theorem rel_findSome? {α : Type} {f g : α → Option Outcome} {xs : List α}
    (h : ∀ x ∈ xs, Option.Rel same (f x) (g x)) :
    Option.Rel same (xs.findSome? f) (xs.findSome? g) := by
  induction xs with
  | nil => exact .none
  | cons x xs ih =>
    obtain ⟨hx, hxs⟩ := List.forall_mem_cons.mp h
    rw [List.findSome?_cons, List.findSome?_cons]
    generalize f x = found at hx ⊢
    generalize g x = found' at hx ⊢
    cases hx with
    | none => exact ih hxs
    | some hx => exact .some hx

/-- From places that are alike both sequels find the same. -/
def FindsSame (alike : Place → Place → Prop) (same : Outcome → Outcome → Prop) (k k' : Sequel) :
    Prop :=
  ∀ ⦃s s'⦄, alike s s' → Option.Rel same (k s) (k' s')

namespace Mirrors

variable (h : Mirrors m m' t t' leaves d low bound alike) (hsame : Comparable same)
  {s s' mid mid' : Place} {k k' : Sequel} {times : Repetition} {what : Leaf} {g count : Nat}

include h

theorem eq_iff (hs : alike s s') (hmid : alike mid mid') :
    mid.pos = s.pos ↔ mid'.pos = s'.pos := by
  have h₁ := h.lt_iff hs hmid
  have h₂ := h.lt_iff hmid hs
  omega

theorem consume_none (hwhat : leaves what) (hs : alike s s')
    (hc : m.consume (t.consumer what) s.pos s.slots = none) :
    m'.consume (t'.consumer what) s'.pos s'.slots = none := by
  have hrel := h.consume hs hwhat
  rw [hc] at hrel
  generalize m'.consume (t'.consumer what) s'.pos s'.slots = next at hrel ⊢
  cases hrel
  rfl

theorem consume_some {pos : Nat} (hwhat : leaves what) (hs : alike s s')
    (hc : m.consume (t.consumer what) s.pos s.slots = some pos) :
    ∃ pos', m'.consume (t'.consumer what) s'.pos s'.slots = some pos' ∧
      alike ⟨pos, s.slots⟩ ⟨pos', s'.slots⟩ := by
  have hrel := h.consume hs hwhat
  rw [hc] at hrel
  generalize m'.consume (t'.consumer what) s'.pos s'.slots = next at hrel
  cases hrel with
  | some hnext => exact ⟨_, rfl, hnext⟩

theorem seekCounts (hwhat : leaves what) (hk : FindsSame alike same k k') (hs : alike s s') :
    Option.Rel same (m.seekCounts (t.consumer what) times k count s)
      (m'.seekCounts (t'.consumer what) times k' count s') := by
  fun_induction Matcher.seekCounts m (t.consumer what) times k count s generalizing s' with
  | case1 count s hc hmin =>
    rw [seekCounts_eq m', h.consume_none hwhat hs hc]
    simp only [if_pos hmin]
    exact .none
  | case2 count s hc hmin =>
    rw [seekCounts_eq m', h.consume_none hwhat hs hc]
    simp only [if_neg hmin]
    exact hk hs
  | case3 count s pos hc hmin ih =>
    obtain ⟨pos', hc', hnext⟩ := h.consume_some hwhat hs hc
    rw [seekCounts_eq m', hc']
    simp only [if_pos hmin]
    exact ih hnext
  | case4 count s pos hc hmin hmore ih =>
    obtain ⟨pos', hc', hnext⟩ := h.consume_some hwhat hs hc
    have hmore' : times.belowMax count = true ∧ s'.pos < pos' :=
      ⟨hmore.1, (h.lt_iff hs hnext).mp hmore.2⟩
    rw [seekCounts_eq m', hc']
    simp only [if_neg hmin, if_pos hmore']
    exact rel_or (ih hnext) (hk hs)
  | case5 count s pos hc hmin hmore =>
    obtain ⟨pos', hc', hnext⟩ := h.consume_some hwhat hs hc
    have hmore' : ¬(times.belowMax count = true ∧ s'.pos < pos') :=
      fun hm => hmore ⟨hm.1, (h.lt_iff hs hnext).mpr hm.2⟩
    rw [seekCounts_eq m', hc']
    simp only [if_neg hmin, if_neg hmore']
    exact hk hs

theorem enter (hs : alike s s') (hg : low ≤ g ∧ g < bound) :
    alike ⟨s.pos, s.slots.enter (g + d) s.pos⟩ ⟨s'.pos, s'.slots.enter g s'.pos⟩ :=
  h.update hs hg (f := fun pos slot => ⟨0, some pos, slot.stop⟩) (by simp [Slots.updates])

theorem skip (hs : alike s s') (hg : low ≤ g ∧ g < bound) :
    alike ⟨s.pos, s.slots.skip (g + d)⟩ ⟨s'.pos, s'.slots.skip g⟩ :=
  h.update hs hg (f := fun _ slot => ⟨slot.count, none, none⟩) (by simp [Slots.updates])

theorem close (hs : alike s s') (hg : low ≤ g ∧ g < bound) :
    alike ⟨s.pos, s.slots.close (g + d) s.pos⟩ ⟨s'.pos, s'.slots.close g s'.pos⟩ :=
  h.update hs hg (f := fun pos slot => { slot with stop := some pos }) (by simp [Slots.updates])

theorem finish (hs : alike s s') (hg : low ≤ g ∧ g < bound) :
    alike ⟨s.pos, s.slots.finish (g + d) s.pos⟩ ⟨s'.pos, s'.slots.finish g s'.pos⟩ :=
  h.update hs hg (f := fun pos slot => ⟨slot.count + 1, slot.start, some pos⟩)
    (by simp [Slots.updates])

theorem restart (hs : alike s s') (hg : low ≤ g ∧ g < bound) :
    alike ⟨s.pos, s.slots.restart (g + d) s.pos⟩ ⟨s'.pos, s'.slots.restart g s'.pos⟩ :=
  h.update hs hg (f := fun pos slot => ⟨slot.count + 1, some pos, some pos⟩)
    (by simp [Slots.updates])

theorem seekRounds {body body' : Sequel → Sequel}
    (hbody : ∀ ⦃k k'⦄, FindsSame alike same k k' → FindsSame alike same (body k) (body' k'))
    (hg : low ≤ g ∧ g < bound) (hk : FindsSame alike same k k') (hs : alike s s') :
    Option.Rel same (m.seekRounds body times (g + d) k count s)
      (m'.seekRounds body' times g k' count s') := by
  induction hn : m.subject.size - s.pos using Nat.strongRecOn generalizing s s' count with
  | ind j ih =>
    subst hn
    rw [Matcher.seekRounds, Matcher.seekRounds]
    refine hbody (fun mid mid' hmid => ?_) hs
    have hlt := h.lt_iff hs hmid
    have hinside := h.inside hmid
    have hfinish := hk (h.finish hmid hg)
    simp only [h.eq_iff hs hmid]
    split
    · exact hk (h.close hmid hg)
    · split
      · split
        · exact hfinish
        · exact .none
      · split
        · by_cases hahead : s.pos < mid.pos ∧ mid.pos ≤ m.subject.size
          · rw [dif_pos hahead, dif_pos ⟨hlt.mp hahead.1, hinside.mp hahead.2⟩]
            refine rel_or (ih _ (by simp only; omega) (h.restart hmid hg) rfl) ?_
            split
            · exact hfinish
            · exact .none
          · rw [dif_neg hahead, dif_neg fun hm => hahead ⟨hlt.mpr hm.1, hinside.mpr hm.2⟩]
            exact .none
        · exact hfinish

theorem seek_assert {what : Assertion} {n n' : Nat} {rest rest' : Pattern}
    (hrest : FindsSame alike same (m.seek t rest n k) (m'.seek t' rest' n' k')) :
    FindsSame alike same (m.seek t (.assert what rest) n k)
      (m'.seek t' (.assert what rest') n' k') := by
  intro s s' hs
  simp only [Matcher.seek, h.holds hs]
  split
  · exact hrest hs
  · exact .none

theorem seek_group {n : Nat} {body body' rest rest' : Pattern}
    (hbody : ∀ ⦃k k'⦄, FindsSame alike same k k' → FindsSame alike same
      (m.seekAlts t body (n + d + 1) k) (m'.seekAlts t' body' (n + 1) k'))
    (hg : low ≤ n ∧ n < bound)
    (hrest : FindsSame alike same (m.seek t rest (n + d + 1 + body.groupCount) k)
      (m'.seek t' rest' (n + 1 + body'.groupCount) k')) :
    FindsSame alike same (m.seek t (.group body times rest) (n + d) k)
      (m'.seek t' (.group body' times rest') n k') := by
  intro s s' hs
  simp only [Matcher.seek]
  refine rel_or (h.seekRounds hbody hg hrest (h.enter hs hg)) ?_
  split
  · exact hrest (h.skip hs hg)
  · exact .none

include hsame

theorem seek (p : Pattern) {n : Nat} (hleaves : ∀ what ∈ p.leaves, leaves what)
    (hn : low ≤ n ∧ n + p.groupCount ≤ bound) (hk : FindsSame alike same k k') :
    FindsSame alike same (m.seek t p (n + d) k) (m'.seek t' p n k') ∧
      FindsSame alike same (m.seekLater t p (n + d) k) (m'.seekLater t' p n k') := by
  induction p generalizing n k k' with
  | done => exact ⟨hk, fun _ _ _ => .none⟩
  | leaf what times rest ih =>
    obtain ⟨hwhat, hrest⟩ := List.forall_mem_cons.mp hleaves
    obtain ⟨hfirst, hlater⟩ := ih hrest hn hk
    exact ⟨fun s s' hs => h.seekCounts hwhat hfirst hs, hlater⟩
  | assert what rest ih =>
    obtain ⟨hfirst, hlater⟩ := ih hleaves hn hk
    exact ⟨h.seek_assert hfirst, hlater⟩
  | group body times rest ihbody ih =>
    obtain ⟨hinner, hrest⟩ := List.forall_mem_append.mp hleaves
    simp only [Pattern.groupCount] at hn
    obtain ⟨hfirst, hlater⟩ := ih hrest (n := n + 1 + body.groupCount) (by omega) hk
    have hbody : ∀ ⦃k k'⦄, FindsSame alike same k k' → FindsSame alike same
        (m.seekAlts t body (n + 1 + d) k) (m'.seekAlts t' body (n + 1) k') := by
      intro k k' hk s s' hs
      obtain ⟨hfirst, hlater⟩ := ihbody hinner (n := n + 1) (by omega) hk
      exact rel_further hsame (hfirst hs) (hlater hs)
    rw [Nat.add_right_comm (n + 1), Nat.add_right_comm n] at hfirst hlater
    rw [Nat.add_right_comm n] at hbody
    exact ⟨h.seek_group hbody (by omega) hfirst, hlater⟩
  | bar rest ih =>
    obtain ⟨hfirst, hlater⟩ := ih hleaves hn hk
    exact ⟨hk, fun s s' hs => rel_further hsame (hfirst hs) (hlater hs)⟩

theorem seekAlts (p : Pattern) {n : Nat} (hleaves : ∀ what ∈ p.leaves, leaves what)
    (hn : low ≤ n ∧ n + p.groupCount ≤ bound) (hk : FindsSame alike same k k') :
    FindsSame alike same (m.seekAlts t p (n + d) k) (m'.seekAlts t' p n k') := by
  obtain ⟨hfirst, hlater⟩ := h.seek hsame p hleaves hn hk
  exact fun s s' hs => rel_further hsame (hfirst hs) (hlater hs)

end Mirrors

/-- In the same subject the same is found by two matchers that agree on the assertions and on what
the items of the pattern consume. -/
theorem found_congr {p : Pattern} (hsubject : m.subject = m'.subject)
    (hgroups : m.program.groups.size = m'.program.groups.size)
    (hholds : ∀ what pos, m.holds what pos = m'.holds what pos)
    (hconsume : ∀ what ∈ p.leaves, ∀ pos slots,
      m.consume (t.consumer what) pos slots = m'.consume (t'.consumer what) pos slots) :
    m.found t p = m'.found t' p := by
  have hmirrors : Mirrors m m' t t' (· ∈ p.leaves) 0 1 (1 + p.groupCount) (· = ·) := by
    refine ⟨?_, ?_, ?_, ?_, ?_⟩
    · rintro s s' mid mid' rfl rfl
      rfl
    · rintro s s' rfl
      rw [hsubject]
    · rintro s s' rfl what
      exact hholds what s.pos
    · rintro s s' what rfl hwhat
      rw [hconsume what hwhat]
      cases m'.consume (t'.consumer what) s.pos s.slots with
      | none => exact .none
      | some next => exact .some rfl
    · rintro s s' g f rfl - -
      rfl
  have hcomparable : Comparable fun o o' => o = id o' :=
    comparable_of_stop fun _ _ ho => congrArg Outcome.stop ho
  have haccepted : FindsSame (· = ·) (fun o o' => o = id o') accepted accepted := by
    rintro place _ rfl
    exact .some rfl
  funext pos
  have hstart : m.startPlace pos = m'.startPlace pos := by
    rw [startPlace, startPlace, startSlots, startSlots, hgroups]
  exact (eq_map_of_rel (hmirrors.seekAlts hcomparable p (fun _ hwhat => hwhat)
    ⟨Nat.le_refl 1, Nat.le_refl _⟩ haccepted hstart)).trans Option.map_id'

end Matcher

end PosixRegex
