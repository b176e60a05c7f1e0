import PosixRegex.Proofs.Pattern.Shape
import PosixRegex.Proofs.Search.Exploration

namespace PosixRegex

namespace Matcher

variable {m : Matcher} {what : Consumer} {times : Repetition} {slots : Slots}
  {count count' pos mid next : Nat}

theorem repeats_of_none (hc : m.consume what pos slots = none) :
    m.Repeats what times slots count pos next ↔ times.min ≤ count ∧ pos = next := by
  constructor
  · intro h
    cases h with
    | stop hmin => exact ⟨hmin, rfl⟩
    | need _ hc' | more _ _ hc' =>
      rw [hc] at hc'
      cases hc'
  · rintro ⟨hmin, rfl⟩
    exact .stop hmin

theorem repeats_of_lt (hc : m.consume what pos slots = some mid) (hmin : count < times.min) :
    m.Repeats what times slots count pos next ↔
      m.Repeats what times slots (count + 1) mid next := by
  constructor
  · intro h
    cases h with
    | stop hle | more hle => omega
    | need _ hc' hnext =>
      obtain rfl := Option.some.inj (hc.symm.trans hc')
      exact hnext
  · intro hnext
    exact .need hmin hc hnext

theorem repeats_of_le (hc : m.consume what pos slots = some mid) (hmin : times.min ≤ count) :
    m.Repeats what times slots count pos next ↔
      (times.belowMax count = true ∧ pos < mid ∧
        m.Repeats what times slots (count + 1) mid next) ∨ pos = next := by
  constructor
  · intro h
    cases h with
    | stop => exact Or.inr rfl
    | need hlt => omega
    | more _ hmax hc' hpos hnext =>
      obtain rfl := Option.some.inj (hc.symm.trans hc')
      exact Or.inl ⟨hmax, hpos, hnext⟩
  · rintro (⟨hmax, hpos, hnext⟩ | rfl)
    · exact .more hmin hmax hc hpos hnext
    · exact .stop hmin

theorem Repeats.lower (h : m.Repeats what times slots count pos next) (hle : count' ≤ count)
    (hmin : times.min ≤ count') : m.Repeats what times slots count' pos next := by
  induction h generalizing count' with
  | stop => exact .stop hmin
  | need hlt => omega
  | more _ hmax hc hpos _ ih =>
    exact .more hmin (Repetition.belowMax_of_le hmax hle) hc hpos (ih (by omega) (by omega))

/-- Of two ways from the same place the longer one can be taken with the smaller count. -/
theorem Repeats.of_shorter {next' : Nat} (h : m.Repeats what times slots count pos next)
    (h' : m.Repeats what times slots count' pos next') (hle : count' ≤ count)
    (hlt : next' < next) : m.Repeats what times slots count' pos next := by
  induction h' generalizing count with
  | stop hmin => exact h.lower hle hmin
  | @need count' pos mid next' hmin hc hnext ih =>
    have hmid := hnext.bounds.1
    have hpos := (consume_bounds hc).1
    by_cases hcount : times.min ≤ count
    · rw [repeats_of_le hc hcount] at h
      obtain ⟨-, -, h⟩ | rfl := h
      · exact .need hmin hc (ih h (by omega) hlt)
      · omega
    · rw [repeats_of_lt hc (by omega)] at h
      exact .need hmin hc (ih h (by omega) hlt)
  | @more count' pos mid next' hmin hmax hc hpos hnext ih =>
    have hmid := hnext.bounds.1
    rw [repeats_of_le hc (by omega)] at h
    obtain ⟨-, -, h⟩ | rfl := h
    · exact .more hmin hmax hc hpos (ih h (by omega) hlt)
    · omega

section

variable {p : Char → Bool}
  (hsingle : ∀ pos slots, m.consume what pos slots = m.subject.accept p pos)

include hsingle

theorem Repeats.visits {pos' : Nat} (h : m.Repeats what times slots count pos next)
    (hb : m.subject.isBoundary pos' = true) (hle : pos ≤ pos') (hnext : pos' ≤ next) :
    ∃ count', count ≤ count' ∧ m.Repeats what times slots count' pos' next := by
  induction h with
  | @stop count pos hmin =>
    obtain rfl : pos = pos' := by omega
    exact ⟨count, Nat.le_refl _, .stop hmin⟩
  | @need count pos mid next hmin hc hrest ih =>
    by_cases heq : pos = pos'
    · exact ⟨count, Nat.le_refl _, heq ▸ .need hmin hc hrest⟩
    · rw [hsingle] at hc
      obtain ⟨count', hcount, h⟩ := ih (Subject.accept_le hc hb (by omega)) hnext
      exact ⟨count', by omega, h⟩
  | @more count pos mid next hmin hmax hc hpos hrest ih =>
    by_cases heq : pos = pos'
    · exact ⟨count, Nat.le_refl _, heq ▸ .more hmin hmax hc hpos hrest⟩
    · rw [hsingle] at hc
      obtain ⟨count', hcount, h⟩ := ih (Subject.accept_le hc hb (by omega)) hnext
      exact ⟨count', by omega, h⟩

theorem Repeats.change_slots {slots' : Slots} (h : m.Repeats what times slots count pos next) :
    m.Repeats what times slots' count pos next := by
  refine h.congr fun pos => ?_
  rw [hsingle, hsingle]

theorem Repeats.cross {slots' : Slots} {pos' next' : Nat}
    (h : m.Repeats what times slots 0 pos next) (h' : m.Repeats what times slots' 0 pos' next')
    (hb : m.subject.isBoundary pos' = true) (hle : pos ≤ pos') :
    next ≤ next' ∨ m.Repeats what times slots' 0 pos' next := by
  by_cases hnext : next ≤ next'
  · exact Or.inl hnext
  · have hle' := h'.bounds.1
    obtain ⟨count', -, h⟩ := h.visits hsingle hb hle (by omega)
    exact Or.inr ((h.change_slots hsingle).of_shorter h' (Nat.zero_le _) (by omega))

end

/-- The slots are those of the program, and the place is not inside of a character. -/
structure Fits (m : Matcher) (s : Place) : Prop where
  size_eq : s.slots.size = m.program.groups.size
  isBoundary : m.subject.isBoundary s.pos = true

/-- From instruction `pc` on only the position matters, and who starts later ends later. -/
structure Ascends (m : Matcher) (pc : Nat) : Prop where
  ends {s : Place} (hs : m.Fits s) : ∃ result, m.play (s.thread pc) = some result
  same {s s' : Place} {o : Outcome} (hs : m.Fits s) (hs' : m.Fits s') (hpos : s.pos = s'.pos)
    (ho : m.play (s.thread pc) = some (some o)) : ∃ o', m.play (s'.thread pc) = some (some o')
  mono {s s' : Place} {o o' : Outcome} (hs : m.Fits s) (hs' : m.Fits s') (hpos : s.pos ≤ s'.pos)
    (ho : m.play (s.thread pc) = some (some o)) (ho' : m.play (s'.thread pc) = some (some o')) :
    o.stop ≤ o'.stop

/-- Who goes on at `b` behind another repetition ends no earlier than who goes on without it, where
`round` tells where one repetition leads. -/
def Defers (m : Matcher) (b : Nat) (round : Nat → Nat → Prop) : Prop :=
  ∀ ⦃s s' : Place⦄ ⦃mid : Nat⦄ ⦃o o' : Outcome⦄, m.Fits s → m.Fits s' → round s.pos mid →
    mid ≤ s'.pos → m.play (s.thread b) = some (some o) → m.play (s'.thread b) = some (some o') →
    o.stop ≤ o'.stop

def Round (m : Matcher) (what : Consumer) (pos mid : Nat) : Prop :=
  pos < mid ∧ ∃ slots, m.consume what pos slots = some mid

theorem Ascends.defers {b : Nat} {round : Nat → Nat → Prop} (h : m.Ascends b)
    (hround : ∀ pos mid, round pos mid → pos ≤ mid) : m.Defers b round := by
  intro s s' mid o o' hs hs' hr hmid ho ho'
  exact h.mono hs hs' (Nat.le_trans (hround _ _ hr) hmid) ho ho'

/-- Instructions that do not look at the groups pass the property on, if of two places that they
reach from different starts the later start is not outdone. -/
theorem Ascends.of_reach {a b : Nat} {reach : Place → Place → Prop} (hb : m.Ascends b) (far : Prop)
    (hexplores : ∀ s, m.Fits s → m.Explores b (reach s) far (m.play (s.thread a)))
    (hfits : ∀ s mid, m.Fits s → reach s mid → m.Fits mid)
    (hsame : ∀ s s' mid, s.pos = s'.pos → reach s mid → ∃ mid', reach s' mid' ∧ mid.pos = mid'.pos)
    (hcross : ∀ s s' mid mid', m.Fits s' → s.pos ≤ s'.pos → reach s mid → reach s' mid' →
      mid.pos ≤ mid'.pos ∨ far ∧ ∃ there, reach s' there ∧ mid.pos = there.pos) :
    m.Ascends a := by
  have hfound : ∀ s, m.Fits s → ∃ result, m.play (s.thread a) = some result ∧
      m.Found b (reach s) far result :=
    fun s hs => hexplores s hs fun mid hmid => hb.ends (hfits s mid hs hmid)
  refine ⟨fun hs => (hfound _ hs).imp fun _ hr => hr.1, ?_, ?_⟩
  · intro s s' o hs hs' hpos ho
    obtain ⟨result, hplay, hf⟩ := hfound s hs
    obtain ⟨result', hplay', hf'⟩ := hfound s' hs'
    obtain ⟨mid, hr, hmid⟩ := hf.sound (Option.some.inj (hplay.symm.trans ho))
    obtain ⟨mid', hr', hpos'⟩ := hsame s s' mid hpos hr
    obtain ⟨o', ho'⟩ := hb.same (hfits s mid hs hr) (hfits s' mid' hs' hr') hpos' hmid
    cases result' with
    | none =>
      rw [hf'.complete rfl hr'] at ho'
      cases ho'
    | some o' => exact ⟨o', hplay'⟩
  · intro s s' o o' hs hs' hpos ho ho'
    obtain ⟨result, hplay, hf⟩ := hfound s hs
    obtain ⟨result', hplay', hf'⟩ := hfound s' hs'
    obtain ⟨mid, hr, hmid⟩ := hf.sound (Option.some.inj (hplay.symm.trans ho))
    have hresult' := Option.some.inj (hplay'.symm.trans ho')
    obtain ⟨mid', hr', hmid'⟩ := hf'.sound hresult'
    have hfit := hfits s mid hs hr
    rcases hcross s s' mid mid' hs' hpos hr hr' with hle | ⟨hfar, there, hthere, hpos'⟩
    · exact hb.mono hfit (hfits s' mid' hs' hr') hle hmid hmid'
    · have hfit' := hfits s' there hs' hthere
      obtain ⟨o₁, ho₁⟩ := hb.same hfit hfit' hpos' hmid
      have hle := hb.mono hfit hfit' (Nat.le_of_eq hpos') hmid ho₁
      exact Nat.le_trans hle (hf'.longest hfar hresult' hthere ho₁)

theorem Place.eq_iff {s s' : Place} : s' = s ↔ s.pos = s'.pos ∧ s'.slots = s.slots := by
  constructor
  · rintro rfl
    exact ⟨rfl, rfl⟩
  · rintro ⟨hpos, hslots⟩
    cases s
    cases s'
    cases hpos
    cases hslots
    rfl

theorem playCounts_thread (m : Matcher) (s : Place) (a : Nat) (what : Consumer)
    (times : Repetition) (count : Nat) :
    m.playCounts (s.thread a) what times count =
      match m.consume what s.pos s.slots with
      | none => if count < times.min then some none else m.play (s.thread (a + 1))
      | some mid =>
        if count < times.min then
          m.playCounts (Place.thread ⟨mid, s.slots⟩ a) what times (count + 1)
        else if times.belowMax count ∧ s.pos < mid then
          firstOf (m.playCounts (Place.thread ⟨mid, s.slots⟩ a) what times (count + 1))
            (m.play (s.thread (a + 1)))
        else m.play (s.thread (a + 1)) :=
  playCounts_eq m (s.thread a) what times count

theorem explores_counts (m : Matcher) (what : Consumer) (times : Repetition) {a : Nat} {far : Prop}
    {s : Place} (hfar : far → times.isFixed = true ∨ (m.Fits s ∧ m.Defers (a + 1) (m.Round what))) :
    m.Explores (a + 1) (fun s' => m.Repeats what times s.slots count s.pos s'.pos ∧
      s'.slots = s.slots) far (m.playCounts (s.thread a) what times count) := by
  -- Up to the minimum the count grows, even if nothing is consumed, and from then on the position.
  induction hn : (times.min - count) + (m.subject.size - s.pos) using Nat.strongRecOn
    generalizing s count with
  | ind n ih =>
    subst hn
    have hstop : m.Explores (a + 1) (fun s' => s' = s) far (m.play (s.thread (a + 1))) :=
      .single s fun _ => Iff.rfl
    rw [playCounts_thread]
    cases hc : m.consume what s.pos s.slots with
    | none =>
      by_cases hlt : count < times.min
      · simp only [if_pos hlt]
        refine .nothing fun s' hs' => ?_
        have := ((repeats_of_none hc).mp hs'.1).1
        omega
      · simp only [if_neg hlt]
        refine hstop.of_iff fun s' => ?_
        rw [repeats_of_none hc, Place.eq_iff]
        simp only [Nat.le_of_not_lt hlt, true_and]
    | some mid =>
      have hb := consume_bounds hc
      have hfar' : far → times.isFixed = true ∨
          (m.Fits ⟨mid, s.slots⟩ ∧ m.Defers (a + 1) (m.Round what)) := by
        intro hf
        refine (hfar hf).imp_right fun h => ⟨⟨h.1.size_eq, ?_⟩, h.2⟩
        exact isBoundary_of_consume h.1.isBoundary hc
      by_cases hlt : count < times.min
      · simp only [if_pos hlt]
        refine (ih _ (by simp only; omega) hfar' rfl).of_iff fun s' => ?_
        rw [repeats_of_lt hc hlt]
      · simp only [if_neg hlt]
        have hle := Nat.le_of_not_lt hlt
        by_cases hmore : times.belowMax count = true ∧ s.pos < mid
        · simp only [if_pos hmore]
          have hagain : m.Explores (a + 1) (fun s' => m.Repeats what times s.slots (count + 1) mid
              s'.pos ∧ s'.slots = s.slots) far
              (m.playCounts (Place.thread ⟨mid, s.slots⟩ a) what times (count + 1)) :=
            ih _ (by simp only; omega) hfar' rfl
          refine hagain.orElse hstop (fun s' => ?_) ?_
          · rw [repeats_of_le hc hle, Place.eq_iff]
            simp only [hmore, true_and, or_and_right]
          · rintro hf s₁ s₂ o₁ o₂ ⟨hr, hslots⟩ rfl ho₁ ho₂
            -- The way that goes on is tried first, and ends no earlier than the one that stops here.
            rcases hfar hf with hfix | ⟨hfit, hdefers⟩
            · exact absurd (Repetition.lt_min_of_isFixed hfix hmore.1) hlt
            · have hfit₁ : m.Fits s₁ := ⟨hslots ▸ hfit.size_eq,
                hr.isBoundary (isBoundary_of_consume hfit.isBoundary hc)⟩
              exact hdefers hfit hfit₁ ⟨hmore.2, _, hc⟩ hr.bounds.1 ho₂ ho₁
        · simp only [if_neg hmore]
          refine hstop.of_iff fun s' => ?_
          have hno : ¬(times.belowMax count = true ∧ s.pos < mid ∧
              m.Repeats what times s.slots (count + 1) mid s'.pos) :=
            fun h => hmore ⟨h.1, h.2.1⟩
          rw [repeats_of_le hc hle, Place.eq_iff]
          simp only [hno, false_or]

end Matcher

end PosixRegex
