import PosixRegex.Proofs.Search.Meaning

namespace PosixRegex

namespace Slots

variable {slots : Slots} {g i pos start : Nat} {slot : Slot}

theorem span?_modify_of_ne (h : i ≠ g) (f : Slot → Slot) :
    Slots.span? (Array.modify slots g f) i = slots.span? i := by
  rw [span?, getElem?_modify_of_ne h]
  rfl

theorem span?_skip : (slots.skip g).span? g = none := by
  rw [span?, skip, getElem?_modify_self]
  cases slots[g]? <;> rfl

theorem span?_close (hs : slots[g]? = some slot) (hstart : slot.start = some start)
    (hle : start ≤ pos) : (slots.close g pos).span? g = some ⟨start, pos⟩ := by
  rw [span?, close, getElem?_modify_self, hs]
  simp [Slot.span?, hstart, hle]

theorem span?_finish (hs : slots[g]? = some slot) (hstart : slot.start = some start)
    (hle : start ≤ pos) : (slots.finish g pos).span? g = some ⟨start, pos⟩ := by
  rw [span?, finish, getElem?_modify_self, hs]
  simp [Slot.span?, hstart, hle]

end Slots

namespace Matcher

variable {m : Matcher} {t : Target} {known known' interest : Nat → Prop} {s mid : Place}
  {held : Nat → Option Span} {g : Nat} {around : List Nat}

theorem Readable.of_cons {i : Nat} (h : Readable interest (g :: around) i) :
    Readable interest around i ∧ i ≠ g :=
  ⟨⟨h.1, fun hi => h.2 (List.mem_cons_of_mem g hi)⟩, fun he => h.2 (he ▸ List.mem_cons_self)⟩

theorem Readable.cons {i : Nat} (h : Readable interest around i) (hne : i ≠ g) :
    Readable interest (g :: around) i :=
  ⟨h.1, fun hi => (List.mem_cons.mp hi).elim hne h.2⟩

/-- The slot of a group that is not known from now on may change. -/
theorem Tallies.forget (h : m.Tallies known s held) (f : Slot → Slot)
    (hknown : ∀ i, known' i → known i ∧ i ≠ g) :
    m.Tallies known' ⟨s.pos, Array.modify s.slots g f⟩ held where
  boundary := h.boundary
  agrees hi := by
    obtain ⟨hi, hne⟩ := hknown _ hi
    rw [Slots.span?_modify_of_ne hne, h.agrees hi]
  spelled hi := h.spelled (hknown _ hi).1

theorem Tallies.learn {f : Slot → Slot} {v : Option Span} (h : m.Tallies known s held)
    (hknown : ∀ i, known' i → i ≠ g → known i)
    (hv : known' g → Slots.span? (Array.modify s.slots g f) g = v)
    (hspelled : ∀ span, v = some span → ∃ cs, m.subject.Spells span.start span.stop cs) :
    m.Tallies known' ⟨s.pos, Array.modify s.slots g f⟩ (Function.update held g v) where
  boundary := h.boundary
  agrees {i} hi := by
    by_cases hne : i = g
    · subst hne
      rw [Function.update_self, hv hi]
    · rw [Slots.span?_modify_of_ne hne, Function.update_of_ne hne, h.agrees (hknown i hi hne)]
  spelled {i} hi span hspan := by
    by_cases hne : i = g
    · subst hne
      rw [Function.update_self] at hspan
      exact hspelled span hspan
    · rw [Function.update_of_ne hne] at hspan
      exact h.spelled (hknown i hi hne) hspan

theorem Tallies.enter (h : m.Tallies (Readable interest around) s held) :
    m.Tallies (Readable interest (g :: around)) ⟨s.pos, s.slots.enter g s.pos⟩ held :=
  h.forget _ fun _ hi => hi.of_cons

theorem Tallies.skip (h : m.Tallies known s held) :
    m.Tallies known ⟨s.pos, s.slots.skip g⟩ (Function.update held g none) :=
  h.learn (fun _ hi _ => hi) (fun _ => Slots.span?_skip) (fun _ hspan => nomatch hspan)

theorem Tallies.closing {start : Nat} {f : Slot → Slot}
    (h : m.Tallies (Readable interest (g :: around)) mid held)
    (hspan : Slots.span? (Array.modify mid.slots g f) g = some ⟨start, mid.pos⟩)
    (hstart : m.subject.isBoundary start = true) (hle : start ≤ mid.pos) :
    m.Tallies (Readable interest around) ⟨mid.pos, Array.modify mid.slots g f⟩
      (Stage.closing ⟨mid.pos, held⟩ g start).held := by
  refine h.learn (fun i hi hne => hi.cons hne) (fun _ => hspan) ?_
  rintro _ ⟨⟩
  exact ⟨_, Subject.spells_slice hstart h.boundary hle⟩

theorem Tallies.reopening {start : Nat} (h : m.Tallies (Readable interest (g :: around)) mid held)
    (hstart : m.subject.isBoundary start = true) (hle : start ≤ mid.pos) :
    m.Tallies (Readable interest (g :: around)) ⟨mid.pos, mid.slots.restart g mid.pos⟩
      (Stage.closing ⟨mid.pos, held⟩ g start).held := by
  refine h.learn (fun i hi _ => hi) (fun hg => absurd rfl hg.of_cons.2) ?_
  rintro _ ⟨⟩
  exact ⟨_, Subject.spells_slice hstart h.boundary hle⟩

end Matcher

/-- What a walk through a part inside of the groups in `around` needs to be a derivation. -/
def Part.Sound (around : List Nat) (s : Place) : Part → Prop
  | .seq p n | .alts p n | .chain p n => p.Proper around n ∧ p.entersGroups = true ∧
      n + p.groupCount ≤ s.slots.size
  | .rounds body times g count => body.Proper (g :: around) (g + 1) ∧ body.entersGroups = true ∧
      g + 1 + body.groupCount ≤ s.slots.size ∧ times.Ordered ∧ times.belowMax count = true ∧
      ∃ slot, s.slots[g]? = some slot ∧ slot.start = some s.pos

def Part.within (around : List Nat) : Part → List Nat
  | .rounds _ _ g _ => g :: around
  | _ => around

namespace Matcher

variable {m : Matcher} {t : Target} {part : Part} {s s' : Place} {held : Nat → Option Span}
  {around : List Nat}

/-- The body of a group inside of which the group itself counts as unknown. -/
theorem sound_body {body : Pattern} {times : Repetition} {g count : Nat}
    (h : Part.Sound around s (.rounds body times g count)) :
    Part.Sound (g :: around) s (.alts body (g + 1)) :=
  ⟨h.1, h.2.1, h.2.2.1⟩

theorem slot_after_body {body : Pattern} {times : Repetition} {g count : Nat} {mid : Place}
    (h : Part.Sound around s (.rounds body times g count))
    (hbody : m.Walk t (.alts body (g + 1)) s mid) :
    ∃ slot, mid.slots[g]? = some slot ∧ slot.start = some s.pos := by
  obtain ⟨-, -, -, -, -, slot, hslot, hstart⟩ := h
  exact ⟨slot, (hbody.slot_eq (Or.inl (Nat.lt_succ_self g))).trans hslot, hstart⟩

theorem Walk.derives (hm : m.Suits t) (h : m.Walk t part s s') (hsound : part.Sound around s)
    (ht : m.Tallies (Readable (fun _ => True) (part.within around)) s held) :
    ∃ held', Derives (m.reading t) part ⟨s.pos, held⟩ ⟨s'.pos, held'⟩ ∧
      m.Tallies (Readable (fun _ => True) around) s' held' := by
  induction h generalizing held around with
  | done => exact ⟨held, .done, ht⟩
  | bar => exact ⟨held, .bar, ht⟩
  | leaf hr _ ih =>
    obtain ⟨⟨hwhat, htimes, hproper⟩, hgroups, hsize⟩ := hsound
    obtain ⟨k, hcopies, hmin, hmax⟩ :=
      hr.copies hm hwhat (fun g hg => ⟨trivial, hwhat.not_mem g hg⟩) ht
    rw [Nat.zero_add] at hmin hmax
    obtain ⟨held', hd, ht'⟩ := ih ⟨hproper, hgroups, hsize⟩
      ⟨hr.isBoundary ht.boundary, ht.agrees, ht.spelled⟩
    exact ⟨held', .leaf ⟨hmin, fun n hn => hmax n hn (htimes n hn) (Nat.zero_le n)⟩ hcopies hd, ht'⟩
  | assert hw _ ih =>
    obtain ⟨held', hd, ht'⟩ := ih hsound ht
    exact ⟨held', .assert ((holds_iff hm ht.boundary).mp hw) hd, ht'⟩
  | @skip body rest times n s s' hmin _ ih =>
    obtain ⟨⟨-, -, hproper⟩, hgroups, hsize⟩ := hsound
    simp only [Pattern.entersGroups, Bool.and_eq_true] at hgroups
    simp only [Pattern.groupCount] at hsize
    obtain ⟨held', hd, ht'⟩ := ih ⟨hproper, hgroups.2, by simp only [Slots.size_skip]; omega⟩ ht.skip
    exact ⟨held', .skip hmin hd, ht'⟩
  | @group body rest times n s mid s' hrounds _ ihrounds ihrest =>
    obtain ⟨⟨hbody, htimes, hproper⟩, hgroups, hsize⟩ := hsound
    simp only [Pattern.entersGroups, Bool.and_eq_true] at hgroups
    simp only [Pattern.groupCount] at hsize
    obtain ⟨slot, hslot⟩ : ∃ slot, s.slots[n]? = some slot :=
      ⟨_, Array.getElem?_eq_getElem (by omega)⟩
    -- From here on group `n` is passed through, and its slot tells nothing until it is closed.
    have henter := Slots.getElem?_enter hslot s.pos
    obtain ⟨held₁, hd₁, ht₁⟩ := ihrounds ⟨hbody, hgroups.1.2,
      by simp only [Slots.size_enter]; omega, htimes, hgroups.1.1, _, henter, rfl⟩ ht.enter
    have hsize₁ := hrounds.size_eq
    simp only [Slots.size_enter] at hsize₁
    obtain ⟨held', hd, ht'⟩ := ihrest ⟨hproper, hgroups.2, by omega⟩ ht₁
    exact ⟨held', .group hd₁ hd, ht'⟩
  | @once body g count s mid hbody ih =>
    obtain ⟨slot, hslot, hstart⟩ := slot_after_body hsound hbody
    obtain ⟨held₁, hd, ht₁⟩ := ih (sound_body hsound) ht
    have hle := hbody.bounds.1
    have hmin : Repetition.min .once ≤ count + 1 := Nat.le_add_left 1 count
    exact ⟨_, .last hd hsound.2.2.2.2.1 (Or.inl hmin),
      ht₁.closing (Slots.span?_close hslot hstart hle) ht.boundary hle⟩
  | empty _ hbody hpos _ ih =>
    obtain ⟨slot, hslot, hstart⟩ := slot_after_body hsound hbody
    obtain ⟨held₁, hd, ht₁⟩ := ih (sound_body hsound) ht
    have hle := hbody.bounds.1
    exact ⟨_, .last hd hsound.2.2.2.2.1 (Or.inr hpos),
      ht₁.closing (Slots.span?_finish hslot hstart hle) ht.boundary hle⟩
  | @enough body times g count s mid _ hbody _ hcount ih =>
    obtain ⟨slot, hslot, hstart⟩ := slot_after_body hsound hbody
    obtain ⟨held₁, hd, ht₁⟩ := ih (sound_body hsound) ht
    have hle := hbody.bounds.1
    obtain ⟨-, -, -, htimes, hmax, -⟩ := hsound
    have hmin : times.min ≤ count + 1 :=
      hcount.elim id (Repetition.min_le_of_full htimes)
    exact ⟨_, .last hd hmax (Or.inl hmin),
      ht₁.closing (Slots.span?_finish hslot hstart hle) ht.boundary hle⟩
  | @again body times g count s mid s' _ hbody _ hcount _ ihbody ihrest =>
    obtain ⟨slot, hslot, hstart⟩ := slot_after_body hsound hbody
    obtain ⟨held₁, hd₁, ht₁⟩ := ihbody (sound_body hsound) ht
    have hle := hbody.bounds.1
    obtain ⟨hproper, hgroups, hsize, htimes, hmax, -⟩ := hsound
    have hrestart := Slots.getElem?_restart hslot mid.pos
    have ht₂ := ht₁.reopening ht.boundary hle
    have hsize₁ := hbody.size_eq
    obtain ⟨held', hd, ht'⟩ := ihrest ⟨hproper, hgroups,
      by simp only [Slots.size_restart]; omega, htimes, hcount, _, hrestart, rfl⟩ ht₂
    exact ⟨held', .again hd₁ hmax hd, ht'⟩
  | here _ ih =>
    obtain ⟨held', hd, ht'⟩ := ih hsound ht
    exact ⟨held', .here hd, ht'⟩
  | later hp _ ih =>
    obtain ⟨hproper, hgroups, hsize⟩ := hsound
    have hle := Pattern.le_of_afterBar hp
    obtain ⟨held', hd, ht'⟩ := ih ⟨Pattern.proper_of_afterBar hp hproper,
      Pattern.entersGroups_of_afterBar hp hgroups, by omega⟩ ht
    exact ⟨held', .later hp hd, ht'⟩

end Matcher

end PosixRegex
