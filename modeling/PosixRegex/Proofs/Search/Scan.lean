import PosixRegex.Proofs.Search.Agreement
import PosixRegex.Proofs.Search.Soundness

namespace PosixRegex

namespace Matcher

variable {m : Matcher} {t : Target} {p : Pattern} {limits : SearchLimits}

/-- A scan reports what the search at one position has found, after those at all earlier positions
that a match can start at have failed. -/
theorem scan_some {capture count pos fuel : Nat} {caps : Captures}
    (h : m.scan limits capture count pos fuel = .ok (some caps)) :
    ∃ i fuel' o, pos ≤ i ∧ m.admits i = true ∧
      (m.search limits fuel' i).result = .ok (some o) ∧
      caps = .ofSlots o.slots (m.captureLimit capture) ∧
      ∀ b, pos ≤ b → b < i → m.admits b = true →
        ∃ fuel', (m.search limits fuel' b).result = .ok none := by
  induction count generalizing pos fuel with
  | zero => cases h
  | succ count ih =>
    unfold scan at h
    by_cases ha : m.admits pos = true
    · rw [if_pos ha] at h
      simp only at h
      split at h
      · rename_i o ho
        obtain rfl := Option.some.inj (Except.ok.inj h)
        exact ⟨pos, fuel, o, Nat.le_refl pos, ha, ho, rfl, fun b hb hlt => by omega⟩
      · rename_i hnone
        obtain ⟨i, fuel', o, hi, hai, ho, hcaps, hbefore⟩ := ih h
        refine ⟨i, fuel', o, by omega, hai, ho, hcaps, fun b hb hlt hab => ?_⟩
        by_cases hpos : b = pos
        · exact ⟨fuel, hpos ▸ hnone⟩
        · exact hbefore b (by omega) hlt hab
      · cases h
      · cases h
    · rw [if_neg ha] at h
      obtain ⟨i, fuel', o, hi, hai, ho, hcaps, hbefore⟩ := ih h
      refine ⟨i, fuel', o, by omega, hai, ho, hcaps, fun b hb hlt hab => ?_⟩
      refine hbefore b ?_ hlt hab
      have hne : b ≠ pos := by
        rintro rfl
        exact ha hab
      omega

theorem isBoundary_of_admits {pos : Nat} (h : m.admits pos = true) :
    m.subject.isBoundary pos = true := by
  unfold admits at h
  split at h
  · rename_i hsize
    simp [Subject.isBoundary, hsize]
  · cases hc : m.subject.charAt? pos with
    | none =>
      rw [hc] at h
      cases h
    | some c => exact Subject.isBoundary_of_charAt? hc

theorem suits_ofPattern (hm : m.program = .ofPattern t p) (hl : m.locale = t.locale) :
    m.Suits t :=
  ⟨hl, by rw [hm]; rfl⟩

theorem span?_startSlots (m : Matcher) (pos g : Nat) : (m.startSlots pos).span? g = none := by
  unfold startSlots Slots.span?
  rw [Array.getElem?_modify]
  split
  · simp only [Array.getElem?_replicate]
    split <;> rfl
  · simp only [Array.getElem?_replicate]
    split <;> rfl

theorem tallies_start {pos : Nat} (h : m.subject.isBoundary pos = true) (known : Nat → Prop) :
    m.Tallies known (m.startPlace pos) (fun _ => none) :=
  ⟨h, fun _ => span?_startSlots m pos _, fun _ _ hspan => nomatch hspan⟩

theorem search_some (hm : m.program = .ofPattern t p) {fuel pos : Nat} {o : Outcome}
    (h : (m.search limits fuel pos).result = .ok (some o)) :
    ∃ s, m.Walk t (.alts p 1) (m.startPlace pos) s ∧ o = ⟨s.pos, s.slots.close 0 s.pos⟩ := by
  obtain ⟨stop, result, haccept, hplay, hf⟩ := play_start hm pos
  obtain ⟨s, hs, ho⟩ := hf.sound (eq_of_search hm h hplay)
  rw [play_of_walk hm haccept hs] at ho
  exact ⟨s, hs, (Option.some.inj (Option.some.inj ho)).symm⟩

end Matcher

theorem Slots.map_span?_toList (slots : Slots) :
    slots.toList.map Slot.span? = (List.range slots.size).map slots.span? := by
  apply List.ext_getElem?
  intro g
  rw [List.getElem?_map, List.getElem?_map, Array.getElem?_toList]
  by_cases hg : g < slots.size
  · rw [Array.getElem?_eq_getElem hg, List.getElem?_range hg, Option.map_some, Option.map_some,
      Slots.span?, Array.getElem?_eq_getElem hg, Option.bind_some]
  · rw [Array.getElem?_eq_none (by omega), List.getElem?_eq_none (by simpa using hg)]
    rfl

theorem Captures.get?_ofSlots (slots : Slots) (limit g : Nat) :
    (Captures.ofSlots slots limit).get? g =
      if g < max limit 1 then slots.span? g else none := by
  rw [Captures.get?, Captures.ofSlots, List.getElem?_map, List.getElem?_take, Array.getElem?_toList,
    Slots.span?]
  by_cases hg : g < max limit 1
  · rw [if_pos hg, if_pos hg]
    cases slots[g]? <;> rfl
  · rw [if_neg hg, if_neg hg]
    rfl

theorem spans_ofSlots {s : Place} {slot : Slot} {start n : Nat} {held : Nat → Option Span}
    (hsize : s.slots.size = n + 1) (hslot : s.slots[0]? = some slot)
    (hstart : slot.start = some start) (hle : start ≤ s.pos)
    (hheld : ∀ g, 1 ≤ g → s.slots.span? g = held g) (limit : Nat) :
    (Captures.ofSlots (s.slots.close 0 s.pos) limit).spans =
      (some ⟨start, s.pos⟩ :: (List.range' 1 n).map held).take (max limit 1) := by
  have hspans : (List.range' 1 n).map (s.slots.close 0 s.pos).span? =
      (List.range' 1 n).map held := by
    apply List.map_congr_left
    intro g hg
    rw [List.mem_range'_1] at hg
    rw [Slots.close, Slots.span?_modify_of_ne (by omega), hheld g hg.1]
  rw [Captures.ofSlots, List.map_take, Slots.map_span?_toList, Slots.size_close, hsize,
    List.range_eq_range', List.range'_succ, List.map_cons, Slots.span?_close hslot hstart hle, hspans]

theorem whole_of_spans {caps : Captures} {whole : Span} {others : List (Option Span)} {limit : Nat}
    (h : caps.spans = (some whole :: others).take (max limit 1)) : caps.whole = whole := by
  obtain ⟨k, hk⟩ : ∃ k, max limit 1 = k + 1 := ⟨max limit 1 - 1, by omega⟩
  rw [hk, List.take_succ_cons] at h
  simp [Captures.whole, Captures.get?, h]

namespace Matcher

variable {m : Matcher} {t : Target} {p : Pattern} {limits : SearchLimits}

theorem slot_startSlots (hm : m.program = .ofPattern t p) (pos : Nat) :
    (m.startSlots pos)[0]? = some ⟨0, some pos, none⟩ := by
  have hsize : 0 < m.program.groups.size := by
    rw [hm, Program.size_groups_ofPattern]
    exact Nat.succ_pos _
  rw [startSlots, Array.getElem?_modify, if_pos rfl, Array.getElem?_replicate, if_pos hsize]
  rfl

theorem Walk.spans (hm : m.program = .ofPattern t p) {pos : Nat} {s : Place}
    {held : Nat → Option Span} (h : m.Walk t (.alts p 1) (m.startPlace pos) s)
    (ht : m.Tallies (Readable (fun _ => True) []) s held) (limit : Nat) :
    (Captures.ofSlots (s.slots.close 0 s.pos) limit).spans =
      (some ⟨pos, s.pos⟩ :: (List.range' 1 p.groupCount).map held).take (max limit 1) := by
  have hsize := size_slots_of_walk hm h
  have hslot : s.slots[0]? = some ⟨0, some pos, none⟩ :=
    (h.slot_eq (Or.inl Nat.one_pos)).trans (slot_startSlots hm pos)
  exact spans_ofSlots hsize hslot rfl h.bounds.1
    (fun g _ => ht.agrees ⟨trivial, List.not_mem_nil⟩) limit

theorem derives_of_execute (hm : m.program = .ofPattern t p) (hl : m.locale = t.locale)
    (hproper : p.Proper [] 1) (hgroups : p.entersGroups = true) {start capture : Nat}
    {caps : Captures} (h : m.execute limits start capture = .ok (some caps)) :
    ∃ held, Derives (m.reading t) (.alts p 1) ⟨caps.whole.start, fun _ => none⟩
        ⟨caps.whole.stop, held⟩ ∧
      caps.spans = (some caps.whole :: (List.range' 1 p.groupCount).map held).take
        (max (m.captureLimit capture) 1) := by
  obtain ⟨i, fuel, o, -, hadmits, ho, rfl, -⟩ := scan_some h
  obtain ⟨s, hwalk, rfl⟩ := search_some hm ho
  have hsize : 1 + p.groupCount ≤ (m.startPlace i).slots.size := by
    rw [startPlace, size_startSlots, hm, Program.size_groups_ofPattern]
    omega
  obtain ⟨held, hd, ht⟩ := hwalk.derives (suits_ofPattern hm hl) ⟨hproper, hgroups, hsize⟩
    (tallies_start (isBoundary_of_admits hadmits) _)
  have hspans := hwalk.spans hm ht (m.captureLimit capture)
  rw [whole_of_spans hspans]
  exact ⟨held, hd, hspans⟩

end Matcher

end PosixRegex
