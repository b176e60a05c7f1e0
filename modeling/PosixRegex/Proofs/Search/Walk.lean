import PosixRegex.Pattern.Code
import PosixRegex.Proofs.Pattern.Part
import PosixRegex.Proofs.Search.Consume
import PosixRegex.Proofs.Search.Recursion

namespace PosixRegex

/-- Where a search stands in the subject, and what it knows about the groups. -/
structure Place where
  pos : Nat
  slots : Slots

def Place.thread (s : Place) (pc : Nat) : Thread := ⟨pc, s.pos, s.slots⟩

namespace Slots

variable (slots : Slots) (g pos : Nat)

@[simp] theorem size_enter : (slots.enter g pos).size = slots.size := Array.size_modify

@[simp] theorem size_skip : (slots.skip g).size = slots.size := Array.size_modify

@[simp] theorem size_close : (slots.close g pos).size = slots.size := Array.size_modify

@[simp] theorem size_finish : (slots.finish g pos).size = slots.size := Array.size_modify

@[simp] theorem size_restart : (slots.restart g pos).size = slots.size := Array.size_modify

variable {slots g}

theorem getElem?_modify_of_ne {i : Nat} (h : i ≠ g) (f : Slot → Slot) :
    (Array.modify slots g f)[i]? = slots[i]? := by
  rw [Array.getElem?_modify, if_neg (Ne.symm h)]

theorem getElem?_modify_self (f : Slot → Slot) :
    (Array.modify slots g f)[g]? = slots[g]?.map f := by
  rw [Array.getElem?_modify, if_pos rfl]

theorem getElem?_enter {slot : Slot} (h : slots[g]? = some slot) (pos : Nat) :
    (slots.enter g pos)[g]? = some ⟨0, some pos, slot.stop⟩ := by
  rw [enter, getElem?_modify_self, h]
  rfl

theorem getElem?_skip {slot : Slot} (h : slots[g]? = some slot) :
    (slots.skip g)[g]? = some ⟨slot.count, none, none⟩ := by
  rw [skip, getElem?_modify_self, h]
  rfl

theorem getElem?_close {slot : Slot} (h : slots[g]? = some slot) (pos : Nat) :
    (slots.close g pos)[g]? = some { slot with stop := some pos } := by
  rw [close, getElem?_modify_self, h]
  rfl

theorem getElem?_finish {slot : Slot} (h : slots[g]? = some slot) (pos : Nat) :
    (slots.finish g pos)[g]? = some ⟨slot.count + 1, slot.start, some pos⟩ := by
  rw [finish, getElem?_modify_self, h]
  rfl

theorem getElem?_restart {slot : Slot} (h : slots[g]? = some slot) (pos : Nat) :
    (slots.restart g pos)[g]? = some ⟨slot.count + 1, some pos, some pos⟩ := by
  rw [restart, getElem?_modify_self, h]
  rfl

end Slots

namespace Matcher

/-- Ways to go on with a repetition that has been made `count` times. Beyond the minimum every
further one consumes something. -/
inductive Repeats (m : Matcher) (what : Consumer) (times : Repetition) (slots : Slots) :
    (count pos next : Nat) → Prop
  | stop {count pos : Nat} (hmin : times.min ≤ count) : Repeats m what times slots count pos pos
  | need {count pos mid next : Nat} (hmin : count < times.min)
      (hc : m.consume what pos slots = some mid)
      (hnext : Repeats m what times slots (count + 1) mid next) :
      Repeats m what times slots count pos next
  | more {count pos mid next : Nat} (hmin : times.min ≤ count) (hmax : times.belowMax count = true)
      (hc : m.consume what pos slots = some mid) (hpos : pos < mid)
      (hnext : Repeats m what times slots (count + 1) mid next) :
      Repeats m what times slots count pos next

inductive Walk (m : Matcher) (t : Target) : Part → Place → Place → Prop
  | done {n : Nat} {s : Place} : Walk m t (.seq .done n) s s
  | bar {rest : Pattern} {n : Nat} {s : Place} : Walk m t (.seq (.bar rest) n) s s
  | leaf {what : Leaf} {times : Repetition} {rest : Pattern} {n next : Nat} {s s' : Place}
      (hr : m.Repeats (t.consumer what) times s.slots 0 s.pos next)
      (hrest : Walk m t (.seq rest n) ⟨next, s.slots⟩ s') :
      Walk m t (.seq (.leaf what times rest) n) s s'
  | assert {what : Assertion} {rest : Pattern} {n : Nat} {s s' : Place}
      (hw : m.holds what s.pos = true) (hrest : Walk m t (.seq rest n) s s') :
      Walk m t (.seq (.assert what rest) n) s s'
  | skip {body rest : Pattern} {times : Repetition} {n : Nat} {s s' : Place}
      (hmin : times.min = 0)
      (hrest : Walk m t (.seq rest (n + 1 + body.groupCount)) ⟨s.pos, s.slots.skip n⟩ s') :
      Walk m t (.seq (.group body times rest) n) s s'
  | group {body rest : Pattern} {times : Repetition} {n : Nat} {s mid s' : Place}
      (hrounds : Walk m t (.rounds body times n 0) ⟨s.pos, s.slots.enter n s.pos⟩ mid)
      (hrest : Walk m t (.seq rest (n + 1 + body.groupCount)) mid s') :
      Walk m t (.seq (.group body times rest) n) s s'
  | once {body : Pattern} {g count : Nat} {s mid : Place}
      (hbody : Walk m t (.alts body (g + 1)) s mid) :
      Walk m t (.rounds body .once g count) s ⟨mid.pos, mid.slots.close g mid.pos⟩
  | empty {body : Pattern} {times : Repetition} {g count : Nat} {s mid : Place}
      (ho : times ≠ .once) (hbody : Walk m t (.alts body (g + 1)) s mid) (hpos : mid.pos = s.pos)
      (hcount : count < max times.min 1) :
      Walk m t (.rounds body times g count) s ⟨mid.pos, mid.slots.finish g mid.pos⟩
  | enough {body : Pattern} {times : Repetition} {g count : Nat} {s mid : Place}
      (ho : times ≠ .once) (hbody : Walk m t (.alts body (g + 1)) s mid) (hpos : mid.pos ≠ s.pos)
      (hcount : times.min ≤ count + 1 ∨ times.belowMax (count + 1) = false) :
      Walk m t (.rounds body times g count) s ⟨mid.pos, mid.slots.finish g mid.pos⟩
  | again {body : Pattern} {times : Repetition} {g count : Nat} {s mid s' : Place}
      (ho : times ≠ .once) (hbody : Walk m t (.alts body (g + 1)) s mid) (hpos : mid.pos ≠ s.pos)
      (hcount : times.belowMax (count + 1) = true)
      (hrest : Walk m t (.rounds body times g (count + 1))
        ⟨mid.pos, mid.slots.restart g mid.pos⟩ s') :
      Walk m t (.rounds body times g count) s s'
  | here {p : Pattern} {n : Nat} {s s' : Place} (hseq : Walk m t (.seq p n) s s') :
      Walk m t (.alts p n) s s'
  | later {p q : Pattern} {n n' : Nat} {s s' : Place} (hp : p.afterBar n = some (n', q))
      (hq : Walk m t (.alts q n') s s') : Walk m t (.alts p n) s s'

variable {m : Matcher} {t : Target} {part : Part} {s s' : Place}

theorem Repeats.bounds {what : Consumer} {times : Repetition} {slots : Slots}
    {count pos next : Nat} (h : m.Repeats what times slots count pos next) :
    pos ≤ next ∧ next ≤ max pos m.subject.size := by
  induction h with
  | stop => omega
  | need _ hc _ ih | more _ _ hc _ _ ih =>
    have hb := consume_bounds hc
    omega

theorem Repeats.isBoundary {what : Consumer} {times : Repetition} {slots : Slots}
    {count pos next : Nat} (h : m.Repeats what times slots count pos next)
    (hpos : m.subject.isBoundary pos = true) : m.subject.isBoundary next = true := by
  induction h with
  | stop => exact hpos
  | need _ hc _ ih | more _ _ hc _ _ ih => exact ih (isBoundary_of_consume hpos hc)

theorem Repeats.congr {m' : Matcher} {what : Consumer} {times : Repetition} {slots slots' : Slots}
    {count pos next : Nat} (hc : ∀ pos, m.consume what pos slots = m'.consume what pos slots')
    (h : m.Repeats what times slots count pos next) :
    m'.Repeats what times slots' count pos next := by
  induction h with
  | stop hmin => exact .stop hmin
  | need hmin hmid _ ih => exact .need hmin (hc _ ▸ hmid) ih
  | more hmin hmax hmid hpos _ ih => exact .more hmin hmax (hc _ ▸ hmid) hpos ih

theorem repeats_once {what : Consumer} {slots : Slots} {pos next : Nat} :
    m.Repeats what .once slots 0 pos next ↔ m.consume what pos slots = some next := by
  constructor
  · intro h
    cases h with
    | stop hmin => cases hmin
    | more hmin => cases hmin
    | need _ hc hnext =>
      cases hnext with
      | stop => exact hc
      | need hmin => exact absurd hmin (Nat.lt_irrefl 1)
      | more _ hmax => cases hmax
  · intro hc
    exact .need Nat.one_pos hc (.stop (Nat.le_refl 1))

namespace Walk

theorem size_eq (h : m.Walk t part s s') : s'.slots.size = s.slots.size := by
  induction h with
  | done | bar => rfl
  | leaf _ _ ih | assert _ _ ih | here _ ih | later _ _ ih => exact ih
  | skip _ _ ih => simpa using ih
  | group _ _ ih₁ ih₂ => simpa [ih₁] using ih₂
  | once _ ih | empty _ _ _ _ ih | enough _ _ _ _ ih => simpa using ih
  | again _ _ _ _ _ ih₁ ih₂ => simpa [ih₁] using ih₂

theorem bounds (h : m.Walk t part s s') :
    s.pos ≤ s'.pos ∧ s'.pos ≤ max s.pos m.subject.size := by
  induction h with
  | done | bar => omega
  | leaf hr _ ih =>
    have hb := hr.bounds
    simp only at ih
    omega
  | assert _ _ ih | skip _ _ ih | here _ ih | later _ _ ih | once _ ih | empty _ _ _ _ ih
  | enough _ _ _ _ ih => exact ih
  | group _ _ ih₁ ih₂ | again _ _ _ _ _ ih₁ ih₂ =>
    simp only at ih₁ ih₂
    omega

theorem isBoundary (h : m.Walk t part s s') (hpos : m.subject.isBoundary s.pos = true) :
    m.subject.isBoundary s'.pos = true := by
  induction h with
  | done | bar => exact hpos
  | leaf hr _ ih => exact ih (hr.isBoundary hpos)
  | assert _ _ ih | skip _ _ ih | here _ ih | later _ _ ih | once _ ih | empty _ _ _ _ ih
  | enough _ _ _ _ ih => exact ih hpos
  | group _ _ ih₁ ih₂ | again _ _ _ _ _ ih₁ ih₂ => exact ih₂ (ih₁ hpos)

/-- A loop that consumes nothing in its first iteration consumes nothing. -/
theorem first_iteration {body : Pattern} {times : Repetition} {g count : Nat}
    (h : m.Walk t (.rounds body times g count) s s') :
    ∃ mid, m.Walk t (.alts body (g + 1)) s mid ∧ mid.pos ≤ s'.pos ∧
      (mid.pos = s.pos → s'.pos = s.pos) := by
  cases h with
  | once hbody => exact ⟨_, hbody, Nat.le_refl _, id⟩
  | empty _ hbody hpos _ => exact ⟨_, hbody, Nat.le_refl _, id⟩
  | enough _ hbody _ _ => exact ⟨_, hbody, Nat.le_refl _, id⟩
  | again _ hbody hpos _ hrest => exact ⟨_, hbody, hrest.bounds.1, fun h => absurd h hpos⟩

end Walk

theorem Walk.slot_eq (h : m.Walk t part s s') {i : Nat} (hi : i < part.first ∨ part.bound ≤ i) :
    s'.slots[i]? = s.slots[i]? := by
  induction h with
  | done | bar => rfl
  | leaf _ _ ih | assert _ _ ih | here _ ih => exact ih hi
  | later hp _ ih =>
    have := Pattern.le_of_afterBar hp
    simp only [Part.first, Part.bound] at hi ih
    exact ih (by omega)
  | skip _ _ ih =>
    simp only [Part.first, Part.bound, Pattern.groupCount] at hi ih
    rw [ih (by omega), Slots.skip, Slots.getElem?_modify_of_ne (by omega)]
  | group _ _ ih₁ ih₂ =>
    simp only [Part.first, Part.bound, Pattern.groupCount] at hi ih₁ ih₂
    rw [ih₂ (by omega), ih₁ (by omega), Slots.enter, Slots.getElem?_modify_of_ne (by omega)]
  | once _ ih =>
    simp only [Part.first, Part.bound] at hi ih
    rw [Slots.close, Slots.getElem?_modify_of_ne (by omega), ih (by omega)]
  | empty _ _ _ _ ih | enough _ _ _ _ ih =>
    simp only [Part.first, Part.bound] at hi ih
    rw [Slots.finish, Slots.getElem?_modify_of_ne (by omega), ih (by omega)]
  | again _ _ _ _ _ ih₁ ih₂ =>
    simp only [Part.first, Part.bound] at hi ih₁ ih₂
    rw [ih₂ hi, Slots.restart, Slots.getElem?_modify_of_ne (by omega), ih₁ (by omega)]

end Matcher

def Target.spells (t : Target) (c x : Char) : Bool :=
  if t.options.ignoreCase then x == c || x == (t.locale.opposite? c).getD c else x == c

namespace Matcher

variable {m : Matcher} {t : Target} {s s' : Place} {cs : List Char}

theorem consume_literal (m : Matcher) (t : Target) (hcs : cs ≠ []) (pos : Nat) (slots : Slots) :
    m.consume (t.literal cs) pos slots = m.subject.acceptAll (cs.map t.spells) pos := by
  unfold Target.literal
  cases hi : t.options.ignoreCase with
  | true =>
    have hspells : t.spells = fun c x => x == c || x == (t.locale.opposite? c).getD c := by
      funext c x
      simp [Target.spells, hi]
    rcases cs with _ | ⟨c, _ | ⟨d, ds⟩⟩
    · exact absurd rfl hcs
    · rw [hspells]
      exact (Subject.acceptAll_singleton _ _ _).symm
    · simp only [if_true, consume, hspells, List.map_map]
      rfl
  | false =>
    have hspells : t.spells = fun c x => x == c := by
      funext c x
      simp [Target.spells, hi]
    rcases cs with _ | ⟨c, _ | ⟨d, ds⟩⟩
    · exact absurd rfl hcs
    · rw [hspells]
      exact (Subject.acceptAll_singleton _ _ _).symm
    · simp only [Bool.false_eq_true, if_false, consume, hspells]

theorem walk_chars {rest : Pattern} {n : Nat} :
    m.Walk t (.seq (.chars cs rest) n) s s' ↔
      ∃ next, m.subject.acceptAll (cs.map t.spells) s.pos = some next ∧
        m.Walk t (.seq rest n) ⟨next, s.slots⟩ s' := by
  induction cs generalizing s with
  | nil =>
    constructor
    · intro h
      exact ⟨s.pos, rfl, h⟩
    · rintro ⟨next, hnext, h⟩
      obtain rfl : s.pos = next := Option.some.inj hnext
      exact h
  | cons c cs ih =>
    have hone := consume_literal m t (List.cons_ne_nil c []) s.pos s.slots
    rw [List.map_singleton, Subject.acceptAll_singleton] at hone
    constructor
    · intro h
      cases h with
      | leaf hr hrest =>
        obtain ⟨next, hnext, h⟩ := ih.mp hrest
        refine ⟨next, ?_, h⟩
        rw [List.map_cons, Subject.acceptAll_cons, ← hone]
        exact Option.bind_eq_some_iff.mpr ⟨_, repeats_once.mp hr, hnext⟩
    · rintro ⟨next, hnext, h⟩
      rw [List.map_cons, Subject.acceptAll_cons, ← hone] at hnext
      obtain ⟨mid, hm, ht⟩ := Option.bind_eq_some_iff.mp hnext
      exact .leaf (repeats_once.mpr hm) (ih.mpr ⟨next, ht, h⟩)

end Matcher

end PosixRegex
