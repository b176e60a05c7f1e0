import PosixRegex.Proofs.Pattern.Proper
import PosixRegex.Proofs.Search.Walk

namespace PosixRegex

def Slots.span? (slots : Slots) (g : Nat) : Option Span := slots[g]?.bind Slot.span?

namespace Matcher

def reading (m : Matcher) (t : Target) : Reading := ⟨t.options, m.locale, m.subject, m.flags⟩

/-- The matcher runs a program that was compiled for `t`. -/
structure Suits (m : Matcher) (t : Target) : Prop where
  locale : m.locale = t.locale
  newline : m.program.flags.newlineSensitive = t.options.newlineSensitive

end Matcher

namespace Matcher

variable {m : Matcher} {t : Target} {pos next : Nat} {slots : Slots} {held : Nat → Option Span}

theorem spells_iff {c x : Char} : t.spells c x = true ↔
    x = c ∨ t.options.ignoreCase = true ∧ t.locale.opposite? c = some x := by
  unfold Target.spells
  cases t.options.ignoreCase with
  | false => simp
  | true =>
    cases t.locale.opposite? c with
    | none => simp
    | some d =>
      simp only [if_true, Option.getD_some, Bool.or_eq_true, beq_iff_eq, true_and,
        Option.some.injEq]
      exact or_congr_right eq_comm

theorem consume_char_iff (hm : m.Suits t) (c : Char) :
    m.consume (t.consumer (.char c)) pos slots = some next ↔
      (m.reading t).Takes held pos next (.char c) := by
  have hone := consume_literal m t (List.cons_ne_nil c []) pos slots
  rw [List.map_singleton, Subject.acceptAll_singleton] at hone
  rw [Target.consumer, hone, Subject.accept_iff]
  simp only [spells_iff, Reading.Takes, Leaf.Admits, reading, hm.locale]

theorem consume_any_iff :
    m.consume (t.consumer .any) pos slots = some next ↔
      (m.reading t).Takes held pos next .any := by
  simp only [Target.consumer, Reading.Takes, Leaf.Admits, reading]
  cases t.options.newlineSensitive with
  | false => simp [consume, Subject.accept_iff]
  | true => simp [consume, Subject.accept_iff]

theorem consume_bracket_iff (hm : m.Suits t) {b : Bracket} (hb : b.Ascending) :
    m.consume (t.consumer (.bracket b)) pos slots = some next ↔
      (m.reading t).Takes held pos next (.bracket b) := by
  have haccept : m.consume (t.consumer (.bracket b)) pos slots =
      m.subject.accept ((b.consumer t.options t.locale).admits m.locale) pos := by
    simp only [Target.consumer, Bracket.consumer]
    split <;> rfl
  rw [haccept, Subject.accept_iff]
  simp only [hm.locale, Bracket.admits_consumer hb, Reading.Takes, Leaf.Admits, reading]

theorem consume_single_iff {what : Leaf} {around : List Nat} (hm : m.Suits t)
    (hwhat : what.Proper around) (hchar : ∀ g, what ≠ .backRef g) :
    m.consume (t.consumer what) pos slots = some next ↔
      (m.reading t).Takes held pos next what := by
  cases what with
  | char c => exact consume_char_iff hm c
  | any => exact consume_any_iff
  | bracket b => exact consume_bracket_iff hm hwhat
  | backRef g => exact absurd rfl (hchar g)

def repeats (m : Matcher) (t : Target) (x c : Char) : Bool :=
  if t.options.ignoreCase then m.locale.foldEq x c else c == x

theorem consume_backRef (m : Matcher) (t : Target) (g pos : Nat) (slots : Slots) :
    m.consume (t.consumer (.backRef g)) pos slots =
      (m.captured? slots g).bind fun cs => m.subject.acceptAll (cs.map (m.repeats t)) pos := by
  unfold repeats
  simp only [Target.consumer]
  cases t.options.ignoreCase <;> rfl

theorem forall₂_repeats_iff {cs ds : List Char} :
    List.Forall₂ (fun p c => p c = true) (cs.map (m.repeats t)) ds ↔
      if t.options.ignoreCase then List.Forall₂ (fun a b => m.locale.foldEq a b = true) cs ds
      else ds = cs := by
  rw [List.forall₂_map_left_iff]
  unfold repeats
  cases t.options.ignoreCase with
  | true => rfl
  | false =>
    simp only [Bool.false_eq_true, if_false, beq_iff_eq]
    constructor
    · intro h
      exact (List.forall₂_eq_eq_eq ▸ h.flip : ds = cs)
    · rintro rfl
      exact List.forall₂_refl _

theorem consume_backRef_iff {g : Nat} (hpos : m.subject.isBoundary pos = true)
    (hheld : slots.span? g = held g)
    (hspelled : ∀ span, held g = some span → ∃ cs, m.subject.Spells span.start span.stop cs) :
    m.consume (t.consumer (.backRef g)) pos slots = some next ↔
      (m.reading t).Takes held pos next (.backRef g) := by
  have hcaptured : m.captured? slots g =
      (held g).map fun span => m.subject.slice span.start span.stop := by
    rw [← hheld]
    rfl
  rw [consume_backRef, hcaptured]
  constructor
  · intro h
    obtain ⟨cs, hcs, hall⟩ := Option.bind_eq_some_iff.mp h
    obtain ⟨span, hspan, rfl⟩ := Option.map_eq_some_iff.mp hcs
    obtain ⟨cs, hspells⟩ := hspelled span hspan
    obtain ⟨ds, hds, hforall⟩ := (Subject.acceptAll_iff hpos).mp hall
    rw [hspells.slice_eq] at hforall
    exact ⟨span, cs, ds, hspan, hspells, hds, forall₂_repeats_iff.mp hforall⟩
  · rintro ⟨span, cs, ds, hspan, hspells, hds, hsame⟩
    refine Option.bind_eq_some_iff.mpr ⟨cs, ?_, ?_⟩
    · rw [hspan]
      exact congrArg some hspells.slice_eq
    · exact (Subject.acceptAll_iff hpos).mpr ⟨ds, hds, forall₂_repeats_iff.mpr hsame⟩

/-- A place with what the groups in `known` hold there. -/
structure Tallies (m : Matcher) (known : Nat → Prop) (s : Place) (held : Nat → Option Span) :
    Prop where
  boundary : m.subject.isBoundary s.pos = true
  agrees {g : Nat} (hg : known g) : s.slots.span? g = held g
  spelled {g : Nat} (hg : known g) {span : Span} (hspan : held g = some span) :
    ∃ cs, m.subject.Spells span.start span.stop cs

/-- The groups of interest that are not open. Only the slot of a closed group tells what it
holds. -/
def Readable (interest : Nat → Prop) (around : List Nat) (g : Nat) : Prop :=
  interest g ∧ g ∉ around

variable {known : Nat → Prop} {s : Place} {what : Leaf} {around : List Nat} {times : Repetition}

theorem consume_iff (hm : m.Suits t) (hwhat : what.Proper around)
    (hknown : ∀ g, what = .backRef g → known g) (h : m.Tallies known s held) :
    m.consume (t.consumer what) s.pos s.slots = some next ↔
      (m.reading t).Takes held s.pos next what := by
  cases what with
  | char | any | bracket => exact consume_single_iff hm hwhat fun _ => nofun
  | backRef g =>
    have hg := hknown g rfl
    exact consume_backRef_iff h.boundary (h.agrees hg) fun span => h.spelled hg

theorem Tallies.of_consume {what : Consumer} (h : m.Tallies known s held)
    (hc : m.consume what s.pos s.slots = some next) : m.Tallies known ⟨next, s.slots⟩ held :=
  ⟨isBoundary_of_consume h.boundary hc, h.agrees, h.spelled⟩

theorem Repeats.copies {count : Nat} (hm : m.Suits t) (hwhat : what.Proper around)
    (hknown : ∀ g, what = .backRef g → known g) (ht : m.Tallies known ⟨pos, slots⟩ held)
    (h : m.Repeats (t.consumer what) times slots count pos next) :
    ∃ k, (m.reading t).Copies held what k pos next ∧ times.min ≤ count + k ∧
      ∀ n, times.max? = some n → times.min ≤ n → count ≤ n → count + k ≤ n := by
  induction h with
  | stop hmin => exact ⟨0, .zero, hmin, fun _ _ _ hcount => hcount⟩
  | need hmin hc _ ih =>
    obtain ⟨k, hk, hlow, hhigh⟩ := ih (ht.of_consume hc)
    refine ⟨k + 1, .succ ((consume_iff hm hwhat hknown ht).mp hc) hk, by omega, ?_⟩
    intro n hn hmin' _
    have := hhigh n hn hmin' (by omega)
    omega
  | more hmin hmax hc _ _ ih =>
    obtain ⟨k, hk, hlow, hhigh⟩ := ih (ht.of_consume hc)
    refine ⟨k + 1, .succ ((consume_iff hm hwhat hknown ht).mp hc) hk, by omega, ?_⟩
    intro n hn hmin' _
    have := Repetition.belowMax_iff.mp hmax n hn
    have := hhigh n hn hmin' (by omega)
    omega

theorem copies_of_stay {k : Nat} (hm : m.Suits t) (hwhat : what.Proper around)
    (hknown : ∀ g, what = .backRef g → known g) (ht : m.Tallies known s held)
    (hc : m.consume (t.consumer what) s.pos s.slots = some s.pos)
    (h : (m.reading t).Copies held what k s.pos next) : next = s.pos := by
  induction k with
  | zero =>
    cases h
    rfl
  | succ k ih =>
    cases h with
    | succ htakes hrest =>
      have hc' := (consume_iff hm hwhat hknown ht).mpr htakes
      rw [hc] at hc'
      cases hc'
      exact ih hrest

theorem repeats_of_copies {count k : Nat} (hm : m.Suits t) (hwhat : what.Proper around)
    (hknown : ∀ g, what = .backRef g → known g) (ht : m.Tallies known s held)
    (h : (m.reading t).Copies held what k s.pos next) (hmin : times.min ≤ count + k)
    (hmax : ∀ n, times.max? = some n → count + k ≤ n) :
    m.Repeats (t.consumer what) times s.slots count s.pos next := by
  induction k generalizing s count with
  | zero =>
    cases h
    exact .stop hmin
  | succ k ih =>
    cases h with
    | @succ _ _ mid _ htakes hrest =>
      have hc := (consume_iff hm hwhat hknown ht).mpr htakes
      have hnext : m.Repeats (t.consumer what) times s.slots (count + 1) mid next :=
        ih (ht.of_consume hc) hrest (by omega) fun n hn => by
          have := hmax n hn
          omega
      by_cases hlt : count < times.min
      · exact .need hlt hc hnext
      · by_cases hpos : s.pos < mid
        · refine .more (Nat.le_of_not_lt hlt) (Repetition.belowMax_iff.mpr fun n hn => ?_) hc hpos
            hnext
          have := hmax n hn
          omega
        · have hstay : mid = s.pos := Nat.le_antisymm (Nat.le_of_not_lt hpos) (consume_bounds hc).1
          subst hstay
          obtain rfl := copies_of_stay hm hwhat hknown ht hc hrest
          exact .stop (Nat.le_of_not_lt hlt)

theorem atLineStart_iff (hm : m.Suits t) {before after : List Char}
    (h : m.subject.chars = before ++ after) :
    m.atLineStart (byteLength before) = true ↔
      if before = [] then m.flags.notBol = false
      else t.options.newlineSensitive = true ∧ before.getLast? = some '\n' := by
  unfold atLineStart
  cases before with
  | nil => simp [byteLength]
  | cons c cs =>
    have hc := c.utf8Size_pos
    have hne : byteLength (c :: cs) ≠ 0 := by
      simp only [byteLength]
      omega
    rw [if_neg hne, if_neg (List.cons_ne_nil c cs), Bool.and_eq_true, beq_iff_eq, hm.newline,
      Subject.charAt?_pred_eq_newline_iff h (List.cons_ne_nil c cs)]

theorem atLineEnd_iff (hm : m.Suits t) {before after : List Char}
    (h : m.subject.chars = before ++ after) :
    m.atLineEnd (byteLength before) = true ↔
      if after = [] then m.flags.notEol = false
      else t.options.newlineSensitive = true ∧ after.head? = some '\n' := by
  unfold atLineEnd
  simp only [Subject.byteLength_eq_size_iff h]
  split
  · simp
  · rw [Bool.and_eq_true, beq_iff_eq, hm.newline, Subject.charAt?_byteLength h]

theorem holds_iff {what : Assertion} (hm : m.Suits t) (hpos : m.subject.isBoundary pos = true) :
    m.holds what pos = true ↔ (m.reading t).Holds what pos := by
  obtain ⟨xs, ys, h, rfl⟩ := Subject.isBoundary_iff.mp hpos
  have hunique : (m.reading t).Holds what (byteLength xs) ↔
      (m.reading t).HoldsBetween xs ys what := by
    constructor
    · rintro ⟨before, after, hcs, hlen, hbetween⟩
      obtain ⟨rfl, rfl⟩ := append_inj_of_byteLength_eq (hcs.symm.trans h) hlen
      exact hbetween
    · exact fun hbetween => ⟨xs, ys, h, rfl, hbetween⟩
  rw [hunique]
  cases what with
  | lineStart => exact atLineStart_iff hm h
  | lineEnd => exact atLineEnd_iff hm h
  | word edge =>
    simp only [holds, atWordEdge, Subject.charBefore?_byteLength h, Subject.charAt?_byteLength h,
      Reading.HoldsBetween, reading]
    cases edge <;> simp

end Matcher

end PosixRegex
