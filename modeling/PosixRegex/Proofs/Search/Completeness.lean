import PosixRegex.Proofs.Pattern.Nullable
import PosixRegex.Proofs.Search.Soundness

namespace PosixRegex

theorem Derives.belowMax {r : Reading} {body : Pattern} {times : Repetition} {g count : Nat}
    {σ σ' : Stage} (h : Derives r (.rounds body times g count) σ σ') :
    times.belowMax count = true := by
  cases h with
  | last _ hmax _ => exact hmax
  | again _ hmax _ => exact hmax

namespace Matcher

variable {m : Matcher} {t : Target} {interest : Nat → Prop} {around : List Nat} {body : Pattern}
  {times : Repetition} {g count : Nat} {σ σ' : Stage} {slots : Slots}

def Idles (m : Matcher) (t : Target) (part : Part) : Prop :=
  ∀ s : Place, ∃ slots, m.Walk t part s ⟨s.pos, slots⟩

theorem idles_alts {p : Pattern} {n : Nat} {ok : Bool}
    (h : ok = true ∧ m.Idles t (.seq p n) ∨
      ∃ n' q, p.afterBar n = some (n', q) ∧ m.Idles t (.alts q n')) : m.Idles t (.alts p n) := by
  intro s
  rcases h with ⟨-, hseq⟩ | ⟨n', q, hq, halts⟩
  · exact (hseq s).imp fun _ hw => .here hw
  · exact (halts s).imp fun _ hw => .later hq hw

theorem idles_group {body rest : Pattern} {times : Repetition} {n : Nat}
    (hbody : m.Idles t (.alts body (n + 1)))
    (hrest : m.Idles t (.seq rest (n + 1 + body.groupCount))) :
    m.Idles t (.seq (.group body times rest) n) := by
  intro s
  obtain ⟨slots, hw⟩ := hbody ⟨s.pos, s.slots.enter n s.pos⟩
  by_cases ho : times = .once
  · subst ho
    exact (hrest ⟨s.pos, slots.close n s.pos⟩).imp fun _ hw' => .group (.once hw) hw'
  · have hrounds := Walk.empty ho hw rfl (show 0 < max times.min 1 by omega)
    exact (hrest ⟨s.pos, slots.finish n s.pos⟩).imp fun _ hw' => .group hrounds hw'

theorem idles_seq_or_later {p : Pattern} {n : Nat} {ok : Bool}
    (h : p.isNullable false ok = true) : ok = true ∧ m.Idles t (.seq p n) ∨
      ∃ n' q, p.afterBar n = some (n', q) ∧ m.Idles t (.alts q n') := by
  induction p generalizing n ok with
  | done => exact Or.inl ⟨h, fun s => ⟨s.slots, .done⟩⟩
  | leaf what times rest ih =>
    refine (ih h).imp_left ?_
    rintro ⟨hok, hrest⟩
    simp only [Bool.false_and, Bool.or_false, Bool.and_eq_true, beq_iff_eq] at hok
    refine ⟨hok.1, fun s => (hrest s).imp fun _ hw => ?_⟩
    exact .leaf (.stop (Nat.le_of_eq hok.2)) hw
  | assert what rest ih =>
    refine (ih h).imp_left ?_
    rintro ⟨hok, -⟩
    simp at hok
  | bar rest ih =>
    rw [Pattern.isNullable, Bool.or_eq_true] at h
    rcases h with hok | h
    · exact Or.inl ⟨hok, fun s => ⟨s.slots, .bar⟩⟩
    · exact Or.inr ⟨n, rest, rfl, idles_alts (ih h)⟩
  | group body times rest ihbody ih =>
    refine (ih h).imp_left ?_
    rintro ⟨hok, hrest⟩
    rw [Bool.and_eq_true, Bool.or_eq_true, beq_iff_eq] at hok
    refine ⟨hok.1, ?_⟩
    rcases hok.2 with hmin | hbody
    · exact fun s => (hrest ⟨s.pos, s.slots.skip n⟩).imp fun _ hw => .skip hmin hw
    · exact idles_group (idles_alts (ihbody hbody)) hrest

theorem idles_of_isNullable {p : Pattern} {n : Nat} (h : p.isNullable false true = true) :
    m.Idles t (.alts p n) :=
  idles_alts (idles_seq_or_later h)

/-- For every derivation of a part there is a walk. -/
def Answers (m : Matcher) (t : Target) (interest : Nat → Prop) (around : List Nat) (part : Part) :
    Prop :=
  ∀ ⦃σ σ' : Stage⦄ ⦃slots : Slots⦄, Derives (m.reading t) part σ σ' → part.bound ≤ slots.size →
    m.Tallies (Readable interest around) ⟨σ.pos, slots⟩ σ.held →
    ∃ slots', m.Walk t part ⟨σ.pos, slots⟩ ⟨σ'.pos, slots'⟩ ∧
      m.Tallies (Readable interest around) ⟨σ'.pos, slots'⟩ σ'.held

/-- The slot of an open group tells where its iteration started. -/
def Opened (slots : Slots) (g pos : Nat) : Prop :=
  ∃ slot, slots[g]? = some slot ∧ slot.start = some pos

theorem Opened.of_walk {pos n : Nat} {s s' : Place} (h : Opened s.slots g pos)
    (hw : m.Walk t (.alts body n) s s') (hn : g < n) : Opened s'.slots g pos :=
  h.imp fun _ hslot => ⟨(hw.slot_eq (Or.inl hn)).trans hslot.1, hslot.2⟩

theorem Opened.restart {pos : Nat} (h : Opened slots g pos) (next : Nat) :
    Opened (slots.restart g next) g next := by
  obtain ⟨slot, hslot, -⟩ := h
  exact ⟨_, Slots.getElem?_restart hslot next, rfl⟩

theorem Opened.enter (h : g < slots.size) (pos : Nat) : Opened (slots.enter g pos) g pos :=
  ⟨_, Slots.getElem?_enter (Array.getElem?_eq_getElem h) pos, rfl⟩

/-- A loop in which no empty iteration is followed by another one. -/
theorem rounds_of_derives {part : Part}
    (hbody : m.Answers t interest (g :: around) (.alts body (g + 1)))
    (hempty : body.isNullable true true = true → times.belowMax 1 = false)
    (h : Derives (m.reading t) part σ σ') (hpart : part = .rounds body times g count)
    (hsize : g + 1 + body.groupCount ≤ slots.size) (hopened : Opened slots g σ.pos)
    (ht : m.Tallies (Readable interest (g :: around)) ⟨σ.pos, slots⟩ σ.held) :
    ∃ slots', m.Walk t (.rounds body times g count) ⟨σ.pos, slots⟩ ⟨σ'.pos, slots'⟩ ∧
      m.Tallies (Readable interest around) ⟨σ'.pos, slots'⟩ σ'.held := by
  induction h generalizing count slots with
  | done | bar | leaf | assert | skip | group | here | later => cases hpart
  | @last body times g count σ mid hd hmax hmin =>
    cases hpart
    obtain ⟨slots₁, hw, ht₁⟩ := hbody hd hsize ht
    obtain ⟨slot, hslot, hstart⟩ := hopened.of_walk hw (Nat.lt_succ_self g)
    have hle := hd.le
    have hclose := ht₁.closing (Slots.span?_close hslot hstart hle) ht.boundary hle
    have hfinish := ht₁.closing (Slots.span?_finish hslot hstart hle) ht.boundary hle
    by_cases ho : times = .once
    · subst ho
      exact ⟨_, .once hw, hclose⟩
    · by_cases hpos : mid.pos = σ.pos
      · have hone := hempty (hd.mayBeEmpty hpos)
        have hcount : count = 0 := by
          by_contra hne
          rw [Repetition.belowMax_of_le hmax (by omega)] at hone
          cases hone
        exact ⟨_, .empty ho hw hpos (by omega), hfinish⟩
      · exact ⟨_, .enough ho hw hpos (Or.inl (hmin.resolve_right hpos)), hfinish⟩
  | @again body times g count σ mid σ' hd hmax hrest _ ih =>
    cases hpart
    obtain ⟨slots₁, hw, ht₁⟩ := hbody hd hsize ht
    have hle := hd.le
    have hcount := hrest.belowMax
    have hpos : mid.pos ≠ σ.pos := by
      intro hpos
      have hone := hempty (hd.mayBeEmpty hpos)
      rw [Repetition.belowMax_of_le hcount (Nat.le_add_left 1 count)] at hone
      cases hone
    have hsize₁ := hw.size_eq
    have hopened₁ := (hopened.of_walk hw (Nat.lt_succ_self g)).restart mid.pos
    have hsize₂ : g + 1 + body.groupCount ≤ (slots₁.restart g mid.pos).size := by
      rw [Slots.size_restart]
      exact hsize₁ ▸ hsize
    obtain ⟨slots', hw', ht'⟩ :=
      ih rfl hsize₂ hopened₁ (ht₁.reopening ht.boundary hle)
    exact ⟨slots', .again (Repetition.ne_once_of_belowMax hcount) hw hpos hcount hw', ht'⟩

theorem Tallies.of_eq {known : Nat → Prop} {s s' : Place} {held held' : Nat → Option Span}
    (h : m.Tallies known s held) (hpos : m.subject.isBoundary s'.pos = true)
    (hslots : ∀ i, known i → s'.slots[i]? = s.slots[i]?) (hheld : ∀ i, known i → held' i = held i) :
    m.Tallies known s' held' where
  boundary := hpos
  agrees {i} hi := by
    rw [hheld i hi, ← h.agrees hi, Slots.span?, hslots i hi]
    rfl
  spelled {i} hi span hspan := h.spelled hi (hheld i hi ▸ hspan)

/-- No group of a loop is of interest. -/
def Aloof (interest : Nat → Prop) (body : Pattern) (g : Nat) : Prop :=
  ∀ i, interest i → i < g ∨ g + 1 + body.groupCount ≤ i

/-- A loop whose groups are of no interest. Its empty iterations are left out, so that `c` of
`count` iterations have been walked, and one may be put last. -/
theorem rounds_of_derives_aloof {part : Part} {c : Nat}
    (hbody : m.Answers t interest (g :: around) (.alts body (g + 1)))
    (haloof : Aloof interest body g) (htimes : times.Ordered)
    (hidle : times.min ≤ 1 ∨ body.isNullable false true = true) (ho : times ≠ .once)
    (h : Derives (m.reading t) part σ σ') (hpart : part = .rounds body times g count)
    (hc : c ≤ count) (hmoves : σ'.pos ≠ σ.pos ∨ c < max times.min 1)
    (hsize : g + 1 + body.groupCount ≤ slots.size)
    (ht : m.Tallies (Readable interest (g :: around)) ⟨σ.pos, slots⟩ σ.held) :
    ∃ slots', m.Walk t (.rounds body times g c) ⟨σ.pos, slots⟩ ⟨σ'.pos, slots'⟩ := by
  induction h generalizing count c slots with
  | done | bar | leaf | assert | skip | group | here | later => cases hpart
  | @last body times g count σ mid hd hmax hmin =>
    cases hpart
    obtain ⟨slots₁, hw, -⟩ := hbody hd hsize ht
    simp only [Stage.closing] at hmoves ⊢
    by_cases hpos : mid.pos = σ.pos
    · exact ⟨_, .empty ho hw hpos (hmoves.resolve_left (not_not_intro hpos))⟩
    · by_cases henough : times.min ≤ c + 1
      · exact ⟨_, .enough ho hw hpos (Or.inl henough)⟩
      · -- an empty iteration at the end makes up for those that were left out
        obtain ⟨slots₂, hw₂⟩ := idles_of_isNullable (hidle.resolve_left (by omega))
          ⟨mid.pos, slots₁.restart g mid.pos⟩
        have hmore := Repetition.belowMax_of_lt_min htimes (Nat.lt_of_not_le henough)
        exact ⟨_, .again ho hw hpos hmore (.empty ho hw₂ rfl (by omega))⟩
  | @again body times g count σ mid σ' hd hmax hrest _ ih =>
    cases hpart
    have hheld : ∀ i, Readable interest (g :: around) i →
        (mid.closing g σ.pos).held i = σ.held i := by
      intro i hi
      rw [Stage.held_closing_of_ne hi.of_cons.2]
      have := haloof i hi.1
      exact hd.held_eq (by simp only [Part.first, Part.bound]; omega)
    by_cases hpos : mid.pos = σ.pos
    · have ht₁ : m.Tallies (Readable interest (g :: around)) ⟨mid.pos, slots⟩
          (mid.closing g σ.pos).held := ht.of_eq (hpos ▸ ht.boundary) (fun _ _ => rfl) hheld
      obtain ⟨slots', hw⟩ := ih rfl (Nat.le_succ_of_le hc)
        (by simpa [Stage.closing, hpos] using hmoves) hsize ht₁
      simp only [Stage.closing, hpos] at hw
      exact ⟨slots', hw⟩
    · obtain ⟨slots₁, hw, ht₁⟩ := hbody hd hsize ht
      have hmore : times.belowMax (c + 1) = true :=
        Repetition.belowMax_of_le hrest.belowMax (by omega)
      have hsize₁ := hw.size_eq
      by_cases hstay : σ'.pos = mid.pos ∧ times.min ≤ c + 1
      · rw [hstay.1]
        exact ⟨_, .enough ho hw hpos (Or.inl hstay.2)⟩
      · have hsize₂ : g + 1 + body.groupCount ≤ (slots₁.restart g mid.pos).size := by
          rw [Slots.size_restart]
          exact hsize₁ ▸ hsize
        obtain ⟨slots', hw'⟩ := ih rfl (Nat.succ_le_succ hc)
          (by simp only [Stage.closing]; omega) hsize₂ (ht₁.reopening ht.boundary hd.le)
        exact ⟨slots', .again ho hw hpos hmore hw'⟩

theorem isOrderly_group {refs : List Nat} {rest : Pattern} {n : Nat}
    (h : (Pattern.group body times rest).isOrderly refs n = true) :
    ((body.isNullable true true = true → times.belowMax 1 = false) ∨
      times.belowMax 1 = true ∧ Aloof (· ∈ refs) body n ∧
        (times.min ≤ 1 ∨ body.isNullable false true = true)) ∧
      body.isOrderly refs (n + 1) = true ∧
      rest.isOrderly refs (n + 1 + body.groupCount) = true := by
  rw [Pattern.isOrderly, Bool.and_eq_true, Bool.and_eq_true] at h
  obtain ⟨⟨hloop, hbody⟩, hrest⟩ := h
  refine ⟨?_, hbody, hrest⟩
  cases hone : times.belowMax 1 with
  | false => exact Or.inl fun _ => rfl
  | true =>
    cases hnull : body.isNullable true true with
    | false =>
      refine Or.inl ?_
      intro h
      cases h
    | true =>
      simp only [hone, hnull, Bool.not_true, Bool.false_or, Bool.and_eq_true, List.all_eq_true,
        Bool.or_eq_true, decide_eq_true_eq] at hloop
      refine Or.inr ⟨rfl, fun i hi => ?_, hloop.2⟩
      by_contra hinside
      have hmem : i ∈ List.range' n (body.groupCount + 1) := by
        rw [List.mem_range'_1]
        omega
      simpa [hi] using hloop.1 i hmem

theorem rounds_answered {refs : List Nat} {rest : Pattern} {n : Nat} {s : Place}
    (hbody : m.Answers t (· ∈ refs) (n :: around) (.alts body (n + 1))) (htimes : times.Ordered)
    (horderly : (Pattern.group body times rest).isOrderly refs n = true)
    (h : Derives (m.reading t) (.rounds body times n 0) σ σ')
    (hsize : n + 1 + body.groupCount ≤ s.slots.size) (hpos : s.pos = σ.pos)
    (ht : m.Tallies (Readable (· ∈ refs) around) s σ.held) :
    ∃ slots', m.Walk t (.rounds body times n 0) ⟨σ.pos, s.slots.enter n σ.pos⟩ ⟨σ'.pos, slots'⟩ ∧
      m.Tallies (Readable (· ∈ refs) around) ⟨σ'.pos, slots'⟩ σ'.held := by
  have hsize' : n + 1 + body.groupCount ≤ (s.slots.enter n σ.pos).size := by
    rw [Slots.size_enter]
    exact hsize
  have henter := ht.enter (g := n)
  rw [hpos] at henter
  rcases (isOrderly_group horderly).1 with hempty | ⟨hone, haloof, hidle⟩
  · exact rounds_of_derives hbody hempty h rfl hsize' (Opened.enter (by omega) σ.pos) henter
  · have ho := Repetition.ne_once_of_belowMax hone
    obtain ⟨slots', hw⟩ := rounds_of_derives_aloof hbody haloof htimes hidle ho h rfl
      (Nat.le_refl 0) (Or.inr (by omega)) hsize' henter
    refine ⟨slots', hw, ht.of_eq (hw.isBoundary henter.boundary) (fun i hi => ?_) fun i hi => ?_⟩
    · have := haloof i hi.1
      rw [hw.slot_eq (by simp only [Part.first, Part.bound]; omega), Slots.enter,
        Slots.getElem?_modify_of_ne (by omega)]
    · have := haloof i hi.1
      exact h.held_eq (by simp only [Part.first, Part.bound]; omega)

theorem answers_group {refs : List Nat} {rest : Pattern} {n : Nat}
    (hproper : (Pattern.group body times rest).Proper around n)
    (horderly : (Pattern.group body times rest).isOrderly refs n = true)
    (hbody : m.Answers t (· ∈ refs) (n :: around) (.alts body (n + 1)))
    (hrest : m.Answers t (· ∈ refs) around (.seq rest (n + 1 + body.groupCount))) :
    m.Answers t (· ∈ refs) around (.seq (.group body times rest) n) := by
  intro σ σ' slots h hsize ht
  simp only [Part.bound, Pattern.groupCount] at hsize
  cases h with
  | skip hmin hd =>
    obtain ⟨slots', hw, ht'⟩ := hrest hd
      (by simp only [Part.bound, Slots.size_skip]; omega) (ht.skip (g := n))
    exact ⟨slots', .skip hmin hw, ht'⟩
  | group hrounds hd =>
    obtain ⟨slots₁, hw₁, ht₁⟩ := rounds_answered hbody hproper.2.1 horderly hrounds (s := ⟨_, slots⟩)
      (by simp only; omega) rfl ht
    have hsize₁ := hw₁.size_eq
    simp only [Slots.size_enter] at hsize₁
    obtain ⟨slots', hw', ht'⟩ := hrest hd (by simp only [Part.bound]; omega) ht₁
    exact ⟨slots', .group hw₁ hw', ht'⟩

/-- Every derivation of an orderly pattern is answered by a walk. -/
theorem answers_of_isOrderly (hm : m.Suits t) {refs : List Nat} (p : Pattern)
    {around : List Nat} {n : Nat} (hproper : p.Proper around n) (hrefs : p.refs ⊆ refs)
    (horderly : p.isOrderly refs n = true) :
    m.Answers t (· ∈ refs) around (.seq p n) ∧ m.Answers t (· ∈ refs) around (.alts p n) := by
  have hseq : m.Answers t (· ∈ refs) around (.seq p n) := by
    cases p with
    | done =>
      intro σ σ' slots h _ ht
      cases h
      exact ⟨slots, .done, ht⟩
    | bar rest =>
      intro σ σ' slots h _ ht
      cases h
      exact ⟨slots, .bar, ht⟩
    | leaf what times rest =>
      have hrest := (answers_of_isOrderly hm rest hproper.2.2
        (List.Subset.trans (List.subset_append_right _ _) hrefs) horderly).1
      intro σ σ' slots h hsize ht
      cases h with
      | leaf hk hcopies hd =>
        have hknown : ∀ g, what = .backRef g → Readable (· ∈ refs) around g := by
          rintro g rfl
          exact ⟨hrefs List.mem_cons_self, hproper.1⟩
        have hr : m.Repeats (t.consumer what) times slots 0 σ.pos _ :=
          repeats_of_copies hm hproper.1 hknown ht hcopies (by simpa using hk.1) (by simpa using hk.2)
        obtain ⟨slots', hw, ht'⟩ := hrest hd hsize ⟨hr.isBoundary ht.boundary, ht.agrees, ht.spelled⟩
        exact ⟨slots', .leaf hr hw, ht'⟩
    | assert what rest =>
      have hrest := (answers_of_isOrderly hm rest hproper hrefs horderly).1
      intro σ σ' slots h hsize ht
      cases h with
      | assert hw hd =>
        obtain ⟨slots', hwalk, ht'⟩ := hrest hd hsize ht
        exact ⟨slots', .assert ((holds_iff hm ht.boundary).mpr hw) hwalk, ht'⟩
    | group body times rest =>
      obtain ⟨-, hbodies, hrests⟩ := isOrderly_group horderly
      have hbody := (answers_of_isOrderly hm body hproper.1
        (List.Subset.trans (List.subset_append_left _ _) hrefs) hbodies).2
      have hrest := (answers_of_isOrderly hm rest hproper.2.2
        (List.Subset.trans (List.subset_append_right _ _) hrefs) hrests).1
      exact answers_group hproper horderly hbody hrest
  refine ⟨hseq, ?_⟩
  intro σ σ' slots h hsize ht
  cases h with
  | here hd =>
    obtain ⟨slots', hw, ht'⟩ := hseq hd hsize ht
    exact ⟨slots', .here hw, ht'⟩
  | @later _ q _ n' _ _ hp hd =>
    have hlt := Pattern.sizeOf_afterBar_lt hp
    have hle := Pattern.le_of_afterBar hp
    have hq := (answers_of_isOrderly hm q (Pattern.proper_of_afterBar hp hproper)
      (List.Subset.trans (Pattern.refs_subset_of_afterBar hp) hrefs)
      (Pattern.isOrderly_of_afterBar hp horderly)).2
    simp only [Part.bound] at hsize
    obtain ⟨slots', hw, ht'⟩ := hq hd (by simp only [Part.bound]; omega) ht
    exact ⟨slots', .later hp hw, ht'⟩
termination_by sizeOf p

end Matcher

end PosixRegex
