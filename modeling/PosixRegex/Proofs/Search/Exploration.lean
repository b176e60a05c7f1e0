import PosixRegex.Proofs.Search.Refinement
import PosixRegex.Proofs.Search.Walk

namespace PosixRegex

namespace Matcher

/-- What a search finds that goes on at instruction `b` from the places in `reach`. Where `far`
holds it finds an end that no other place surpasses. -/
structure Found (m : Matcher) (b : Nat) (reach : Place → Prop) (far : Prop)
    (result : Option Outcome) : Prop where
  complete {s : Place} (hr : result = none) (hs : reach s) : m.play (s.thread b) = some none
  sound {o : Outcome} (hr : result = some o) :
    ∃ s, reach s ∧ m.play (s.thread b) = some (some o)
  longest {o o' : Outcome} {s : Place} (hfar : far) (hr : result = some o) (hs : reach s)
    (ho : m.play (s.thread b) = some (some o')) : o'.stop ≤ o.stop

def Ends (m : Matcher) (b : Nat) (reach : Place → Prop) : Prop :=
  ∀ s, reach s → ∃ result, m.play (s.thread b) = some result

/-- The value is what is found from the places in `reach`, as far as the search ends from there. -/
def Explores (m : Matcher) (b : Nat) (reach : Place → Prop) (far : Prop)
    (value : Option (Option Outcome)) : Prop :=
  m.Ends b reach → ∃ result, value = some result ∧ m.Found b reach far result

variable {m : Matcher} {b c : Nat} {reach reach' : Place → Prop} {far far' : Prop}
  {value value' : Option (Option Outcome)}

theorem Found.mono {result : Option Outcome} (h : m.Found b reach far result)
    (hfar : far' → far) : m.Found b reach far' result :=
  ⟨h.complete, h.sound, fun hf => h.longest (hfar hf)⟩

theorem Found.of_iff {result : Option Outcome} (h : m.Found b reach far result)
    (hreach : ∀ s, reach' s ↔ reach s) : m.Found b reach' far result where
  complete hr hs := h.complete hr ((hreach _).mp hs)
  sound hr := (h.sound hr).imp fun s hs => ⟨(hreach s).mpr hs.1, hs.2⟩
  longest hfar hr hs := h.longest hfar hr ((hreach _).mp hs)

namespace Explores

theorem mono (h : m.Explores b reach far value) (hfar : far' → far) :
    m.Explores b reach far' value :=
  fun hends => (h hends).imp fun _ hf => ⟨hf.1, hf.2.mono hfar⟩

theorem of_iff (h : m.Explores b reach far value) (hreach : ∀ s, reach' s ↔ reach s) :
    m.Explores b reach' far value :=
  fun hends => (h fun s hs => hends s ((hreach s).mpr hs)).imp
    fun _ hf => ⟨hf.1, hf.2.of_iff hreach⟩

theorem single (s : Place) (hreach : ∀ s', reach s' ↔ s' = s) :
    m.Explores b reach far (m.play (s.thread b)) := by
  intro hends
  obtain ⟨result, hresult⟩ := hends s ((hreach s).mpr rfl)
  refine ⟨result, hresult, ?_, ?_, ?_⟩
  · rintro s' rfl hs
    rw [(hreach s').mp hs, hresult]
  · rintro o rfl
    exact ⟨s, (hreach s).mpr rfl, hresult⟩
  · rintro o o' s' - rfl hs ho
    rw [(hreach s').mp hs, hresult] at ho
    cases ho
    exact Nat.le_refl _

theorem nothing (hreach : ∀ s, ¬reach s) : m.Explores b reach far (some none) :=
  fun _ => ⟨none, rfl, ⟨fun _ hs => absurd hs (hreach _), fun hr => (nomatch hr),
    fun _ hr => (nomatch hr)⟩⟩

/-- An ordered choice. The first success is the furthest one if those of the second kind never
surpass those of the first kind. -/
theorem orElse (h : m.Explores b reach far value) (h' : m.Explores b reach' far value')
    {both : Place → Prop} (hboth : ∀ s, both s ↔ reach s ∨ reach' s)
    (hfirst : far → ∀ s s' o o', reach s → reach' s' → m.play (s.thread b) = some (some o) →
      m.play (s'.thread b) = some (some o') → o'.stop ≤ o.stop) :
    m.Explores b both far (firstOf value value') := by
  intro hends
  obtain ⟨result, rfl, hf⟩ := h fun s hs => hends s ((hboth s).mpr (Or.inl hs))
  obtain ⟨result', rfl, hf'⟩ := h' fun s hs => hends s ((hboth s).mpr (Or.inr hs))
  cases result with
  | none =>
    refine ⟨result', rfl, ?_, ?_, ?_⟩
    · intro s hr hs
      exact ((hboth s).mp hs).elim (hf.complete rfl) (hf'.complete hr)
    · intro o hr
      exact (hf'.sound hr).imp fun s hs => ⟨(hboth s).mpr (Or.inr hs.1), hs.2⟩
    · intro o o' s hfar hr hs ho
      rcases (hboth s).mp hs with hs | hs
      · have hnone := hf.complete rfl hs
        rw [ho] at hnone
        cases hnone
      · exact hf'.longest hfar hr hs ho
  | some o =>
    obtain ⟨s, hs, ho⟩ := hf.sound rfl
    refine ⟨some o, rfl, fun hr => (nomatch hr), ?_, ?_⟩
    · rintro _ ⟨⟩
      exact ⟨s, (hboth s).mpr (Or.inl hs), ho⟩
    · rintro _ o' s' hfar ⟨⟩ hs' ho'
      rcases (hboth s').mp hs' with hs' | hs'
      · exact hf.longest hfar rfl hs' ho'
      · exact hfirst hfar s s' o o' hs hs' ho ho'

theorem bind (h : m.Explores c reach far value) (onward : Place → Place → Prop)
    (honward : ∀ s, reach s → m.Explores b (onward s) far (m.play (s.thread c)))
    {all : Place → Prop} (hall : ∀ s, all s ↔ ∃ mid, reach mid ∧ onward mid s) :
    m.Explores b all far value := by
  intro hends
  have hmid : ∀ mid, reach mid → ∃ result, m.play (mid.thread c) = some result ∧
      m.Found b (onward mid) far result :=
    fun mid hm => honward mid hm fun s hs => hends s ((hall s).mpr ⟨mid, hm, hs⟩)
  obtain ⟨result, rfl, hf⟩ := h fun mid hm => (hmid mid hm).imp fun _ hr => hr.1
  refine ⟨result, rfl, ?_, ?_, ?_⟩
  · intro s hr hs
    obtain ⟨mid, hm, hs⟩ := (hall s).mp hs
    obtain ⟨inner, hplay, hinner⟩ := hmid mid hm
    rw [hf.complete hr hm] at hplay
    cases hplay
    exact hinner.complete rfl hs
  · intro o hr
    obtain ⟨mid, hm, ho⟩ := hf.sound hr
    obtain ⟨inner, hplay, hinner⟩ := hmid mid hm
    rw [ho] at hplay
    cases hplay
    exact (hinner.sound rfl).imp fun s hs => ⟨(hall s).mpr ⟨mid, hm, hs.1⟩, hs.2⟩
  · intro o o' s hfar hr hs ho
    obtain ⟨mid, hm, hs⟩ := (hall s).mp hs
    obtain ⟨inner, hplay, hinner⟩ := hmid mid hm
    cases inner with
    | none =>
      rw [hinner.complete rfl hs] at ho
      cases ho
    | some o₁ => exact Nat.le_trans (hinner.longest hfar rfl hs ho) (hf.longest hfar hr hm hplay)

end Explores

theorem Found.further {result result' : Option Outcome} (h : m.Found b reach far result)
    (h' : m.Found b reach' far result') {both : Place → Prop}
    (hboth : ∀ s, both s ↔ reach s ∨ reach' s) :
    m.Found b both far (Outcome.further result result') where
  complete {s} hr hs := by
    have hnone : result = none ∧ result' = none := by
      cases result' with
      | none => exact ⟨hr, rfl⟩
      | some o => cases hr
    exact ((hboth s).mp hs).elim (h.complete hnone.1) (h'.complete hnone.2)
  sound hr := by
    rcases Outcome.further_eq_some hr with hr | hr
    · exact (h.sound hr).imp fun s hs => ⟨(hboth s).mpr (Or.inl hs.1), hs.2⟩
    · exact (h'.sound hr).imp fun s hs => ⟨(hboth s).mpr (Or.inr hs.1), hs.2⟩
  longest {o o' s} hfar hr hs ho := by
    rcases (hboth s).mp hs with hs | hs
    · cases result with
      | none =>
        rw [h.complete rfl hs] at ho
        cases ho
      | some o₁ => exact Nat.le_trans (h.longest hfar rfl hs ho) (Outcome.le_stop_of_further_left hr)
    · cases result' with
      | none =>
        rw [h'.complete rfl hs] at ho
        cases ho
      | some o₁ => exact Nat.le_trans (h'.longest hfar rfl hs ho) (Outcome.le_stop_of_further hr)

end Matcher

end PosixRegex
