import PosixRegex.Proofs.Pattern.Nesting
import PosixRegex.Proofs.Search.LeftmostLongest
import PosixRegex.Proofs.Search.Mirror

namespace PosixRegex

def Span.Inside (inner outer : Span) : Prop :=
  outer.start ≤ inner.start ∧ inner.stop ≤ outer.stop

namespace Slots

/-- What a group holds, if anything, lies between two places. -/
def Between (slots : Slots) (h start stop : Nat) : Prop :=
  ∀ span, slots.span? h = some span → start ≤ span.start ∧ span.stop ≤ stop

theorem Between.mono {slots : Slots} {h start stop start' stop' : Nat}
    (hb : slots.Between h start stop) (hstart : start' ≤ start) (hstop : stop ≤ stop') :
    slots.Between h start' stop' := by
  intro span hspan
  have := hb span hspan
  omega

theorem between_of_eq {slots slots' : Slots} {h start stop : Nat}
    (hb : slots.Between h start stop) (heq : slots'.span? h = slots.span? h) :
    slots'.Between h start stop :=
  fun span hspan => hb span (heq ▸ hspan)

theorem eq_or_between_trans {slots slots' slots'' : Slots} {h a b c : Nat}
    (hfirst : slots'.span? h = slots.span? h ∨ slots'.Between h a b)
    (hthen : slots''.span? h = slots'.span? h ∨ slots''.Between h b c) (hab : a ≤ b) (hbc : b ≤ c) :
    slots''.span? h = slots.span? h ∨ slots''.Between h a c := by
  rcases hthen with heq | hb
  · exact hfirst.imp heq.trans fun hb => between_of_eq (hb.mono (Nat.le_refl _) hbc) heq
  · exact Or.inr (hb.mono hab (Nat.le_refl _))

theorem lt_size_of_span? {slots : Slots} {g : Nat} {span : Span}
    (hspan : slots.span? g = some span) : g < slots.size := by
  by_contra hge
  rw [Slots.span?, Array.getElem?_eq_none (Nat.le_of_not_lt hge)] at hspan
  cases hspan

theorem Within.stop_le {slots : Slots} {pos g : Nat} {span : Span} (hs : slots.Within pos)
    (hspan : slots.span? g = some span) : span.stop ≤ pos := by
  obtain ⟨slot, hslot, hspan⟩ := Option.bind_eq_some_iff.mp hspan
  unfold Slot.span? at hspan
  split at hspan
  · rename_i hstop
    split at hspan
    · obtain rfl := Option.some.inj hspan
      exact hs g slot hslot _ hstop
    · cases hspan
  · cases hspan

section

variable {slots : Slots} {pos : Nat} (hs : slots.Within pos) (g : Nat)

include hs

theorem Within.enter : (slots.enter g pos).Within pos :=
  hs.update (Nat.le_refl _) (f := fun pos slot => ⟨0, some pos, slot.stop⟩) (by simp [updates]) g

theorem Within.skip : (slots.skip g).Within pos :=
  hs.update (Nat.le_refl _) (f := fun _ slot => ⟨slot.count, none, none⟩) (by simp [updates]) g

theorem Within.close : (slots.close g pos).Within pos :=
  hs.update (Nat.le_refl _) (f := fun pos slot => { slot with stop := some pos })
    (by simp [updates]) g

theorem Within.finish : (slots.finish g pos).Within pos :=
  hs.update (Nat.le_refl _) (f := fun pos slot => ⟨slot.count + 1, slot.start, some pos⟩)
    (by simp [updates]) g

theorem Within.restart : (slots.restart g pos).Within pos :=
  hs.update (Nat.le_refl _) (f := fun pos slot => ⟨slot.count + 1, some pos, some pos⟩)
    (by simp [updates]) g

end

end Slots

def Part.renews (h : Nat) : Part → Bool
  | seq p n | alts p n => p.renews h n
  | rounds body _ g _ => body.renews h (g + 1)
  | chain _ _ => false

theorem Part.seq_ne_rounds {p body : Pattern} {n g : Nat} {times : Repetition} {count : Nat} :
    Part.seq p n ≠ .rounds body times g count := by
  intro heq
  cases heq

theorem Part.alts_ne_rounds {p body : Pattern} {n g : Nat} {times : Repetition} {count : Nat} :
    Part.alts p n ≠ .rounds body times g count := by
  intro heq
  cases heq

def Part.site? (g : Nat) (again : Bool) : Part → Option Site
  | seq p n | alts p n => p.site? g again n
  | rounds body times g' _ => body.site? g (again || times.belowMax 1) (g' + 1)
  | chain _ _ => none

namespace Matcher

variable {m : Matcher} {t : Target} {part : Part} {s s' : Place} {body : Pattern}
  {times : Repetition} {g h count : Nat}

theorem Walk.span_eq (hw : m.Walk t part s s') (hh : h < part.first ∨ part.bound ≤ h) :
    s'.slots.span? h = s.slots.span? h := by
  rw [Slots.span?, Slots.span?, hw.slot_eq hh]

theorem Walk.span_eq_of_lt {p : Pattern} {n : Nat} (hw : m.Walk t (.seq p n) s s') (hlt : h < n) :
    s'.slots.span? h = s.slots.span? h :=
  hw.span_eq (Or.inl hlt)

theorem Walk.within (hw : m.Walk t part s s') (hs : s.slots.Within s.pos) :
    s'.slots.Within s'.pos := by
  induction hw with
  | done | bar => exact hs
  | leaf hr _ ih => exact ih (hs.mono hr.bounds.1)
  | assert _ _ ih | here _ ih | later _ _ ih => exact ih hs
  | skip _ _ ih => exact ih (hs.skip _)
  | group _ _ ih₁ ih₂ => exact ih₂ (ih₁ (hs.enter _))
  | once _ ih => exact (ih hs).close _
  | empty _ _ _ _ ih | enough _ _ _ _ ih => exact (ih hs).finish _
  | again _ _ _ _ _ ih₁ ih₂ => exact ih₂ ((ih₁ hs).restart _)

/-- Every loop ends with an iteration of its own, from some place on. If there is room for one
iteration only it starts where the loop does. -/
theorem Walk.last_iteration (hw : m.Walk t (.rounds body times g count) s s')
    (hopened : Opened s.slots g s.pos) (hs : s.slots.Within s.pos) :
    ∃ first last, m.Walk t (.alts body (g + 1)) first last ∧ s.pos ≤ first.pos ∧
      first.slots.Within first.pos ∧ s'.pos = last.pos ∧
      s'.slots.span? g = some ⟨first.pos, last.pos⟩ ∧
      (∀ h, h ≠ g → s'.slots.span? h = last.slots.span? h) ∧
      (times.belowMax (count + 1) = false → first = s) := by
  generalize hpart : Part.rounds body times g count = part at hw
  induction hw generalizing count with
  | done | bar | leaf | assert | skip | group | here | later => cases hpart
  | @once body' g' count' s mid hbody =>
    cases hpart
    obtain ⟨slot, hslot, hstart⟩ := hopened.of_walk hbody (Nat.lt_succ_self _)
    refine ⟨s, mid, hbody, Nat.le_refl _, hs, rfl, ?_, fun h hne => ?_, fun _ => rfl⟩
    · exact Slots.span?_close hslot hstart hbody.bounds.1
    · exact Slots.span?_modify_of_ne hne _
  | @empty body' times' g' count' s mid ho hbody hpos hcount
  | @enough body' times' g' count' s mid ho hbody hpos hcount =>
    cases hpart
    obtain ⟨slot, hslot, hstart⟩ := hopened.of_walk hbody (Nat.lt_succ_self _)
    refine ⟨s, mid, hbody, Nat.le_refl _, hs, rfl, ?_, fun h hne => ?_, fun _ => rfl⟩
    · exact Slots.span?_finish hslot hstart hbody.bounds.1
    · exact Slots.span?_modify_of_ne hne _
  | @again body' times' g' count' s mid s'' ho hbody hpos hcount hrest _ ih =>
    cases hpart
    have hmid := hopened.of_walk hbody (Nat.lt_succ_self _)
    obtain ⟨first, last, hlast, hle, hwithin, hpos', hspan, hothers, -⟩ :=
      ih (hmid.restart _) ((hbody.within hs).restart _) rfl
    refine ⟨first, last, hlast, Nat.le_trans hbody.bounds.1 hle, hwithin, hpos', hspan, hothers, ?_⟩
    intro hmax
    rw [hcount] at hmax
    cases hmax

theorem Walk.opened_enter (hw : m.Walk t (.rounds body times g 0)
    ⟨s.pos, s.slots.enter g s.pos⟩ s') {span : Span} (hspan : s'.slots.span? h = some span)
    (hle : g ≤ h) : Opened (s.slots.enter g s.pos) g s.pos := by
  have hsize := Slots.lt_size_of_span? hspan
  rw [hw.size_eq, Slots.size_enter] at hsize
  exact .enter (Nat.lt_of_le_of_lt hle hsize) s.pos

theorem Walk.between_of_group (hw : m.Walk t (.rounds body times g 0)
    ⟨s.pos, s.slots.enter g s.pos⟩ s') (hs : s.slots.Within s.pos) :
    s'.slots.Between g s.pos s'.pos := by
  intro span hspan
  obtain ⟨first, last, -, hle, -, hpos, hg, -⟩ :=
    hw.last_iteration (hw.opened_enter hspan (Nat.le_refl g)) (hs.enter g)
  obtain rfl := Option.some.inj (hspan.symm.trans hg)
  exact ⟨hle, Nat.le_of_eq hpos.symm⟩

/-- What a group holds behind a walk it holds from before, or it lies between the ends of the
walk. -/
theorem Walk.span_eq_or_between (hw : m.Walk t part s s')
    (hh : ∀ body times count, part ≠ .rounds body times h count) (hs : s.slots.Within s.pos) :
    s'.slots.span? h = s.slots.span? h ∨ s'.slots.Between h s.pos s'.pos := by
  induction hw with
  | done | bar => exact Or.inl rfl
  | leaf hr _ ih =>
    refine (ih (fun _ _ _ => Part.seq_ne_rounds) (hs.mono hr.bounds.1)).imp_right fun hb => ?_
    exact hb.mono hr.bounds.1 (Nat.le_refl _)
  | assert _ _ ih => exact ih (fun _ _ _ => Part.seq_ne_rounds) hs
  | here _ ih => exact ih (fun _ _ _ => Part.seq_ne_rounds) hs
  | later _ _ ih => exact ih (fun _ _ _ => Part.alts_ne_rounds) hs
  | @skip body rest times n s s' _ hrest ih =>
    by_cases hn : h = n
    · subst hn
      refine Or.inr fun span hspan => ?_
      rw [hrest.span_eq_of_lt (by omega), Slots.span?_skip] at hspan
      cases hspan
    · have hskip := ih (fun _ _ _ => Part.seq_ne_rounds) (hs.skip n)
      rw [Slots.skip, Slots.span?_modify_of_ne hn] at hskip
      exact hskip
  | @group body rest times n s mid s' hrounds hrest ih₁ ih₂ =>
    have hmid := hrounds.within (hs.enter n)
    by_cases hn : h = n
    · subst hn
      have hb := (hrounds.between_of_group hs).mono (Nat.le_refl _) hrest.bounds.1
      exact Or.inr (Slots.between_of_eq hb (hrest.span_eq_of_lt (by omega)))
    · have hfirst := ih₁ (fun body' times' count' heq => hn (by cases heq; rfl)) (hs.enter n)
      rw [Slots.enter, Slots.span?_modify_of_ne hn] at hfirst
      exact Slots.eq_or_between_trans hfirst (ih₂ (fun _ _ _ => Part.seq_ne_rounds) hmid)
        hrounds.bounds.1 hrest.bounds.1
  | @once body g count s mid _ ih
  | @empty body times g count s mid _ _ _ _ ih
  | @enough body times g count s mid _ _ _ _ ih =>
    have hne : h ≠ g := by
      rintro rfl
      exact hh _ _ _ rfl
    have heq : ∀ f, Slots.span? (Array.modify mid.slots g f) h = mid.slots.span? h :=
      Slots.span?_modify_of_ne hne
    exact (ih (fun _ _ _ => Part.alts_ne_rounds) hs).imp (heq _).trans
      fun hb => Slots.between_of_eq hb (heq _)
  | @again body times g count s mid s' _ hbody _ _ hrest ih₁ ih₂ =>
    have hne : h ≠ g := by
      rintro rfl
      exact hh _ _ _ rfl
    have hrest' := ih₂ (fun body' times' count' heq => hne (by cases heq; rfl))
      ((hbody.within hs).restart g)
    rw [Slots.restart, Slots.span?_modify_of_ne hne] at hrest'
    exact Slots.eq_or_between_trans (ih₁ (fun _ _ _ => Part.alts_ne_rounds) hs) hrest'
      hbody.bounds.1 hrest.bounds.1

theorem Walk.between_of_renews (hw : m.Walk t part s s') (hh : part.renews h = true)
    (hs : s.slots.Within s.pos) : s'.slots.Between h s.pos s'.pos := by
  induction hw with
  | done | bar => cases hh
  | leaf hr _ ih => exact (ih hh (hs.mono hr.bounds.1)).mono hr.bounds.1 (Nat.le_refl _)
  | assert _ _ ih | here _ ih => exact ih hh hs
  | later hp => exact absurd (Pattern.afterBar_of_renews hh) (by rw [hp]; exact Option.some_ne_none _)
  | @skip body rest times n s s' hmin hrest ih =>
    rcases Pattern.renews_group hh with rfl | ⟨hmin', -⟩ | hh
    · intro span hspan
      rw [hrest.span_eq_of_lt (by omega), Slots.span?_skip] at hspan
      cases hspan
    · omega
    · exact ih hh (hs.skip n)
  | @group body rest times n s mid s' hrounds hrest ih₁ ih₂ =>
    have hle := hrest.bounds.1
    rcases Pattern.renews_group hh with rfl | ⟨-, hh⟩ | hh
    · exact Slots.between_of_eq ((hrounds.between_of_group hs).mono (Nat.le_refl _) hle)
        (hrest.span_eq_of_lt (by omega))
    · have hbounds := Pattern.bounds_of_renews hh
      exact Slots.between_of_eq ((ih₁ hh (hs.enter n)).mono (Nat.le_refl _) hle)
        (hrest.span_eq_of_lt (by omega))
    · exact (ih₂ hh (hrounds.within (hs.enter n))).mono hrounds.bounds.1 (Nat.le_refl _)
  | @once body g count s mid hbody ih
  | @empty body times g count s mid _ hbody _ _ ih
  | @enough body times g count s mid _ hbody _ _ ih =>
    have hbounds := Pattern.bounds_of_renews hh
    exact Slots.between_of_eq (ih hh hs) (Slots.span?_modify_of_ne (by omega) _)
  | @again body times g count s mid s' _ hbody _ _ hrest ih₁ ih₂ =>
    exact (ih₂ hh ((hbody.within hs).restart g)).mono hbody.bounds.1 (Nat.le_refl _)

section

variable {C : Option Span → Option Span → Prop} {site : Site}
  (hh : g < h ∧ h ≤ g + site.body.groupCount)
  (hskip : site.times.min = 0 → ∀ inner, (site.again = false → inner = none) → C none inner)
  (hgroup : ∀ {s s' : Place}, m.Walk t (.rounds site.body site.times g 0)
    ⟨s.pos, s.slots.enter g s.pos⟩ s' → s.slots.Within s.pos →
    (site.again = false → s.slots.span? h = none) → C (s'.slots.span? g) (s'.slots.span? h))

include hh hskip hgroup

/-- What a group and one inside of it hold stays as it should be if that is so whenever the outer one
is left or skipped. Without a loop around it the outer one is entered once at most. -/
theorem Walk.keeps (hw : m.Walk t part s s') {again : Bool} (hsite : part.site? g again = some site)
    (hs : s.slots.Within s.pos) (hblank : site.again = false → s.slots.span? h = none)
    (hC : C (s.slots.span? g) (s.slots.span? h)) : C (s'.slots.span? g) (s'.slots.span? h) := by
  have huntouched : ∀ {part : Part} {s s' : Place}, m.Walk t part s s' →
      h < part.first → C (s.slots.span? g) (s.slots.span? h) →
      C (s'.slots.span? g) (s'.slots.span? h) := by
    intro part s s' hw hlt hC
    rwa [hw.span_eq (Or.inl hlt), hw.span_eq (Or.inl (Nat.lt_trans hh.1 hlt))]
  have hmodify : ∀ {n : Nat} {slots : Slots} (f : Slot → Slot), g ≠ n → h ≠ n →
      C (slots.span? g) (slots.span? h) →
      C (Slots.span? (Array.modify slots n f) g) (Slots.span? (Array.modify slots n f) h) := by
    intro n slots f hg hh hC
    rwa [Slots.span?_modify_of_ne hg, Slots.span?_modify_of_ne hh]
  induction hw generalizing again with
  | done | bar => exact hC
  | leaf hr _ ih => exact ih hsite (hs.mono hr.bounds.1) hblank hC
  | assert _ _ ih | here _ ih => exact ih hsite hs hblank hC
  | later hp hq ih =>
    rcases Pattern.site?_of_afterBar hp hsite with hsite | hlt
    · exact ih hsite hs hblank hC
    · exact huntouched hq (Nat.lt_of_le_of_lt hh.2 hlt) hC
  | @skip body rest times n s s' hmin hrest ih =>
    rcases Pattern.site?_group hsite with ⟨rfl, rfl⟩ | hbody | hsite
    · have hlt : h < g + 1 + body.groupCount := Nat.lt_of_le_of_lt hh.2 (by simp only; omega)
      refine huntouched hrest hlt ?_
      have hinner : (s.slots.skip g).span? h = s.slots.span? h :=
        Slots.span?_modify_of_ne (by omega) _
      rw [Slots.span?_skip, hinner]
      exact hskip hmin _ hblank
    · have hbounds := Pattern.bounds_of_site? hbody
      have hlt : h < n + 1 + body.groupCount := by omega
      exact huntouched hrest hlt (hmodify _ (by omega) (by omega) hC)
    · have hbounds := Pattern.bounds_of_site? hsite
      refine ih hsite (hs.skip n) (fun ha => ?_) (hmodify _ (by omega) (by omega) hC)
      exact (Slots.span?_modify_of_ne (by omega) _).trans (hblank ha)
  | @group body rest times n s mid s' hrounds hrest ih₁ ih₂ =>
    rcases Pattern.site?_group hsite with ⟨rfl, rfl⟩ | hbody | hsite
    · have hlt : h < g + 1 + body.groupCount := Nat.lt_of_le_of_lt hh.2 (by simp only; omega)
      exact huntouched hrest hlt (hgroup hrounds hs hblank)
    · have hbounds := Pattern.bounds_of_site? hbody
      have hlt : h < n + 1 + body.groupCount := by omega
      refine huntouched hrest hlt ?_
      refine ih₁ hbody (hs.enter n) (fun ha => ?_) (hmodify _ (by omega) (by omega) hC)
      exact (Slots.span?_modify_of_ne (by omega) _).trans (hblank ha)
    · have hbounds := Pattern.bounds_of_site? hsite
      have hspan : ∀ i, n + 1 + body.groupCount ≤ i → mid.slots.span? i = s.slots.span? i := by
        intro i hi
        rw [hrounds.span_eq (Or.inr hi)]
        exact Slots.span?_modify_of_ne (by omega) _
      refine ih₂ hsite (hrounds.within (hs.enter n)) (fun ha => ?_) ?_
      · rw [hspan h (by omega)]
        exact hblank ha
      · rwa [hspan g (by omega), hspan h (by omega)]
  | @once body g' count s mid hbody ih
  | @empty body times g' count s mid _ hbody _ _ ih
  | @enough body times g' count s mid _ hbody _ _ ih =>
    have hbounds := Pattern.bounds_of_site? hsite
    exact hmodify _ (by omega) (by omega) (ih hsite hs hblank hC)
  | @again body times g' count s mid s' _ hbody _ hmax hrest ih₁ ih₂ =>
    have hbounds := Pattern.bounds_of_site? hsite
    -- There is another iteration, so that the groups of the body may be entered again.
    have hloop : times.belowMax 1 = true := Repetition.belowMax_of_le hmax (Nat.le_add_left 1 count)
    have hagain : site.again = true := by
      rw [Part.site?, hloop, Bool.or_true] at hsite
      exact Pattern.again_of_site? hsite
    refine ih₂ hsite ((hbody.within hs).restart g') (fun ha => ?_)
      (hmodify _ (by omega) (by omega) (ih₁ hsite hs hblank hC))
    rw [hagain] at ha
    cases ha

end

/-- What a group inside of another one holds is a part of what that one holds, or it ends before. -/
theorem Walk.inside_or_before (hw : m.Walk t part s s') {again : Bool} {site : Site}
    (hsite : part.site? g again = some site) (hh : g < h ∧ h ≤ g + site.body.groupCount)
    (hs : s.slots.Within s.pos) (hblank : ∀ i, s.slots.span? i = none) {inner outer : Span}
    (hinner : s'.slots.span? h = some inner) (houter : s'.slots.span? g = some outer) :
    inner.Inside outer ∨ inner.stop ≤ outer.start := by
  let C : Option Span → Option Span → Prop := fun outer? inner? =>
    ∀ inner, inner? = some inner → ∀ outer, outer? = some outer →
      inner.Inside outer ∨ inner.stop ≤ outer.start
  suffices hC : C (s'.slots.span? g) (s'.slots.span? h) from hC inner hinner outer houter
  refine hw.keeps (C := C) hh (fun _ _ _ _ _ _ houter => nomatch houter) ?_ hsite hs
    (fun _ => hblank h) (fun _ hinner => nomatch (hblank h).symm.trans hinner)
  intro s s' hrounds hs _ inner hinner outer houter
  obtain ⟨first, last, hbody, -, hwithin, -, hg, hothers, -⟩ :=
    hrounds.last_iteration (hrounds.opened_enter houter (Nat.le_refl g)) (hs.enter g)
  obtain rfl := Option.some.inj (houter.symm.trans hg)
  rw [hothers h (by omega)] at hinner
  rcases hbody.span_eq_or_between (fun _ _ _ => Part.alts_ne_rounds) hwithin with heq | hb
  · exact Or.inr (hwithin.stop_le (heq ▸ hinner))
  · exact Or.inl (hb inner hinner)

/-- If each iteration gives the inner group a span of its own or none, the outer group holds what the
inner one is a part of. -/
theorem Walk.inside_of_binds (hw : m.Walk t part s s') {again : Bool} {site : Site}
    (hsite : part.site? g again = some site) (hh : g < h ∧ h ≤ g + site.body.groupCount)
    (hbinds : site.Binds g h) (hs : s.slots.Within s.pos) (hblank : ∀ i, s.slots.span? i = none)
    {inner : Span} (hinner : s'.slots.span? h = some inner) :
    ∃ outer, s'.slots.span? g = some outer ∧ inner.Inside outer := by
  let C : Option Span → Option Span → Prop := fun outer? inner? =>
    ∀ inner, inner? = some inner → ∃ outer, outer? = some outer ∧ inner.Inside outer
  suffices hC : C (s'.slots.span? g) (s'.slots.span? h) from hC inner hinner
  refine hw.keeps (C := C) hh ?_ ?_ hsite hs (fun _ => hblank h)
    (fun _ hinner => nomatch (hblank h).symm.trans hinner)
  · intro hmin inner? hnone inner hinner
    have hagain : site.again = false := hbinds.elim And.left fun hb => hb.1.resolve_right (by omega)
    cases (hnone hagain).symm.trans hinner
  · intro s s' hrounds hs hnone inner hinner
    obtain ⟨first, last, hbody, -, hwithin, -, hg, hothers, hfirst⟩ :=
      hrounds.last_iteration (hrounds.opened_enter hinner (Nat.le_of_lt hh.1)) (hs.enter g)
    refine ⟨_, hg, ?_⟩
    rw [hothers h (by omega)] at hinner
    rcases hbinds with ⟨hagain, hmax⟩ | ⟨-, hrenews⟩
    · rcases hbody.span_eq_or_between (h := h) (fun _ _ _ => Part.alts_ne_rounds) hwithin with
        heq | hb
      · have hentered : (s.slots.enter g s.pos).span? h = s.slots.span? h :=
          Slots.span?_modify_of_ne (by omega) _
        rw [heq, hfirst hmax, hentered, hnone hagain] at hinner
        cases hinner
      · exact hb inner hinner
    · exact hbody.between_of_renews hrenews hwithin inner hinner

end Matcher

namespace Matcher

variable {m : Matcher} {t : Target} {p : Pattern} {limits : SearchLimits} {start capture : Nat}
  {caps : Captures}

theorem within_startSlots (m : Matcher) (pos : Nat) : (m.startSlots pos).Within pos := by
  intro g slot hslot stop hstop
  unfold startSlots at hslot
  have hnone : slot.stop = none := by
    rw [Array.getElem?_modify, Array.getElem?_replicate] at hslot
    split at hslot <;> split at hslot <;> cases hslot <;> rfl
  cases hnone.symm.trans hstop

theorem walk_of_execute (hm : m.program = .ofPattern t p)
    (hx : m.execute limits start capture = .ok (some caps)) :
    ∃ pos s, m.Walk t (.alts p 1) (m.startPlace pos) s ∧ caps.whole = ⟨pos, s.pos⟩ ∧
      ∀ g span, 0 < g → (caps.get? g = some span ↔
        g < max (m.captureLimit capture) 1 ∧ s.slots.span? g = some span) := by
  obtain ⟨pos, fuel, o, -, -, ho, rfl, -⟩ := scan_some hx
  obtain ⟨s, hw, rfl⟩ := search_some hm ho
  refine ⟨pos, s, hw, whole_ofSlots hm hw, fun g span hg => ?_⟩
  rw [Captures.get?_ofSlots, Option.ite_none_right_eq_some, Slots.close,
    Slots.span?_modify_of_ne (Nat.ne_of_gt hg)]

/-- Every span lies in that of the whole match. Behind a loop a group may hold a span from an earlier
iteration of a group around it, which ends before the last one starts; if each iteration gives the
inner group a span of its own or none, the outer group has a span and that of the inner one lies in
it. -/
theorem captures_nested {o : Options} {l : Locale} {compileLimits : CompileLimits}
    {text : List Char} (hp : Pattern.read o.dialect compileLimits text = .ok p)
    (hc : Program.compile o l compileLimits text = .ok m.program)
    (hx : m.execute limits start capture = .ok (some caps)) {g h : Nat} {site : Site}
    (hsite : p.site? g false 1 = some site) (hh : g < h ∧ h ≤ g + site.body.groupCount)
    {inner : Span} (hinner : caps.get? h = some inner) :
    inner.Inside caps.whole ∧
    (∀ outer, caps.get? g = some outer → inner.Inside outer ∨ inner.stop ≤ outer.start) ∧
    (site.Binds g h → ∃ outer, caps.get? g = some outer ∧ inner.Inside outer) := by
  obtain ⟨q, hq, hm⟩ := Program.exists_ofPattern hc
  obtain rfl : p = q := Except.ok.inj (hp.symm.trans hq)
  obtain ⟨pos, s, hw, hwhole, hget⟩ := walk_of_execute hm hx
  have hwithin := within_startSlots m pos
  have hblank := span?_startSlots m pos
  have hbounds := Pattern.bounds_of_site? hsite
  obtain ⟨hlt, hinner⟩ := (hget h inner (by omega)).mp hinner
  refine ⟨?_, fun outer houter => ?_, fun hbinds => ?_⟩
  · rw [hwhole]
    rcases hw.span_eq_or_between (fun _ _ _ => Part.alts_ne_rounds) hwithin with heq | hb
    · cases (heq.trans (hblank h)).symm.trans hinner
    · exact hb inner hinner
  · have houter := ((hget g outer (by omega)).mp houter).2
    exact hw.inside_or_before hsite hh hwithin hblank hinner houter
  · obtain ⟨outer, houter, hinside⟩ := hw.inside_of_binds hsite hh hbinds hwithin hblank hinner
    exact ⟨outer, (hget g outer (by omega)).mpr ⟨by omega, houter⟩, hinside⟩

def coupled : Pattern :=
  .group (.group (.leaf (.char 'a') .once .done) .once (.leaf (.char 'b') .once .done)) .plus .done

def matcherIn (p : Pattern) (cs : List Char) : Matcher :=
  ⟨.ofPattern ⟨{ dialect := .extended }, .posix, 255⟩ p, .posix, .ofList cs, {}⟩

theorem captures_nested_coupled :
    (⟨3, 4⟩ : Span).Inside ⟨1, 5⟩ ∧ ∃ outer, (some ⟨3, 5⟩ : Option Span) = some outer ∧
      (⟨3, 4⟩ : Span).Inside outer := by
  have h := captures_nested (m := matcherIn coupled ['x', 'a', 'b', 'a', 'b'])
    (o := { dialect := .extended }) (l := .posix)
    (show Pattern.read .extended {} ['(', '(', 'a', ')', 'b', ')', '+'] = .ok coupled by decide)
    (show Program.compile { dialect := .extended } .posix {} _ = .ok _ by decide)
    (show (matcherIn coupled ['x', 'a', 'b', 'a', 'b']).execute {} 0 3 =
      .ok (some ⟨[some ⟨1, 5⟩, some ⟨3, 5⟩, some ⟨3, 4⟩]⟩) by decide +kernel)
    (show coupled.site? 1 false 1 = some _ from rfl) (show 1 < 2 ∧ 2 ≤ 2 by decide)
    (show Captures.get? _ 2 = some ⟨3, 4⟩ from rfl)
  exact ⟨h.1, h.2.2 (Or.inr ⟨Or.inl rfl, rfl⟩)⟩

/-- The tree of `((a)|b)*`. -/
def forgetful : Pattern :=
  .group (.group (.leaf (.char 'a') .once .done) .once (.bar (.leaf (.char 'b') .once .done))) .star
    .done

/-- The tree of `(((a))?b)*`. -/
def skipping : Pattern :=
  .group (.group (.group (.leaf (.char 'a') .once .done) .once .done) .optional
    (.leaf (.char 'b') .once .done)) .star .done

/-- Another alternative in the last iteration leaves a group inside with a span that lies outside,
and skipping a group leaves those inside of it with spans although it has none. -/
theorem not_captures_nested :
    (Program.compile { dialect := .extended } .posix {} ['(', '(', 'a', ')', '|', 'b', ')', '*'] =
        .ok (matcherIn forgetful ['a', 'b']).program ∧
      (∃ site, forgetful.site? 1 false 1 = some site ∧ 2 ≤ 1 + site.body.groupCount) ∧
      (matcherIn forgetful ['a', 'b']).execute {} 0 3 =
        .ok (some ⟨[some ⟨0, 2⟩, some ⟨1, 2⟩, some ⟨0, 1⟩]⟩) ∧
      ¬(⟨0, 1⟩ : Span).Inside ⟨1, 2⟩) ∧
    Program.compile { dialect := .extended } .posix {}
        ['(', '(', '(', 'a', ')', ')', '?', 'b', ')', '*'] =
        .ok (matcherIn skipping ['a', 'b', 'b']).program ∧
      (∃ site, skipping.site? 2 false 1 = some site ∧ 3 ≤ 2 + site.body.groupCount) ∧
      (matcherIn skipping ['a', 'b', 'b']).execute {} 0 4 =
        .ok (some ⟨[some ⟨0, 3⟩, some ⟨2, 3⟩, none, some ⟨0, 1⟩]⟩) := by
  refine ⟨⟨by decide, ⟨_, rfl, by decide⟩, by decide +kernel, fun h => absurd h.1 (by decide)⟩,
    by decide, ⟨_, rfl, by decide⟩, by decide +kernel⟩

end Matcher

end PosixRegex
