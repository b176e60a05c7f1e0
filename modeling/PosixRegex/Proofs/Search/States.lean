import PosixRegex.Search.Run

namespace PosixRegex

def Config.thread : Config → Thread
  | ready t | repeating t _ _ _ _ => t

/-- What a search is about to do, and the checkpoints that are pending. -/
structure State where
  config : Config
  stack : Stack

namespace Matcher

/-- The state after the next step, if the search goes on. -/
def next? (m : Matcher) (limits : SearchLimits) (s : State) : Option State :=
  match m.step s.config with
  | .go c => some ⟨c, s.stack⟩
  | .choose k c => if limits.recursion ≤ s.stack.size then none else some ⟨c, s.stack.push k⟩
  | .stop result =>
    match m.unwind s.stack.items s.stack.size s.stack.size_eq result with
    | .resume t stack => some ⟨.ready t, stack⟩
    | _ => none
  | .abort _ => none

def startState (m : Matcher) (pos : Nat) : State := ⟨.ready (m.startThread pos), .empty⟩

/-- The states that a search from `pos` goes through, as far as its fuel lasts. -/
inductive Visits (m : Matcher) (limits : SearchLimits) (pos : Nat) : State → Prop
  | start : Visits m limits pos (m.startState pos)
  | next {s s' : State} (h : Visits m limits pos s) (hnext : m.next? limits s = some s') :
      Visits m limits pos s'

variable {m : Matcher} {limits : SearchLimits} {fuel : Nat} {s s' : State} {o : Outcome}

theorem run_of_next? (h : m.next? limits s = some s') :
    m.run limits (fuel + 1) s.config s.stack = m.run limits fuel s'.config s'.stack := by
  unfold next? at h
  rw [run]
  generalize m.step s.config = action at h
  cases action with
  | go c =>
    cases h
    rfl
  | choose k c =>
    simp only at h ⊢
    split at h
    · cases h
    · rename_i hroom
      cases h
      rw [if_neg hroom]
  | stop result =>
    simp only at h ⊢
    generalize m.unwind s.stack.items s.stack.size s.stack.size_eq result = unwound at h
    cases unwound with
    | resume t stack =>
      cases h
      rfl
    | finished | abort => cases h
  | abort why => cases h

theorem run_of_next?_eq_none (h : m.next? limits s = none)
    (ho : (m.run limits (fuel + 1) s.config s.stack).result = .ok (some o)) :
    ∃ result, m.step s.config = .stop result ∧
      m.unwind s.stack.items s.stack.size s.stack.size_eq result = .finished (some o) := by
  unfold next? at h
  unfold run at ho
  generalize m.step s.config = action at h ho
  cases action with
  | go c => cases h
  | choose k c =>
    simp only at h ho
    split at h
    · rename_i hfull
      rw [if_pos hfull] at ho
      cases ho
    · cases h
  | stop result =>
    refine ⟨result, rfl, ?_⟩
    simp only at h ho
    generalize m.unwind s.stack.items s.stack.size s.stack.size_eq result = unwound at h ho
    cases unwound with
    | finished found =>
      obtain rfl : found = some o := Except.ok.inj ho
      rfl
    | resume t stack => cases h
    | abort why => cases ho
  | abort why => cases ho

end Matcher

structure Conditions where
  config : Config → Prop
  checkpoint : Checkpoint → Prop
  outcome : Outcome → Prop

/-- What a step leads to meets the conditions. -/
def Action.Meets (C : Conditions) : Action → Prop
  | go c => C.config c
  | choose k c => C.checkpoint k ∧ C.config c
  | stop result => ∀ o ∈ result, C.outcome o
  | abort _ => True

theorem Action.meets_fail (C : Conditions) : Action.fail.Meets C :=
  fun _ ho => absurd ho (Option.not_mem_none _)

def Verdict.Meets (C : Conditions) : Verdict → Prop
  | answer result => ∀ o ∈ result, C.outcome o
  | resume t again => C.config (.ready t) ∧ ∀ k ∈ again, C.checkpoint k
  | abort _ => True

def Unwound.Meets (C : Conditions) : Unwound → Prop
  | finished result => ∀ o ∈ result, C.outcome o
  | resume t stack => C.config (.ready t) ∧ ∀ k ∈ stack.items, C.checkpoint k
  | abort _ => True

structure State.Meets (C : Conditions) (s : State) : Prop where
  config : C.config s.config
  stack : ∀ k ∈ s.stack.items, C.checkpoint k

/-- Neither a step nor a checkpoint breaks the conditions. -/
structure Matcher.Maintains (m : Matcher) (C : Conditions) : Prop where
  step {c : Config} (hc : C.config c) : (m.step c).Meets C
  settle {k : Checkpoint} {result : Option Outcome} (hk : C.checkpoint k)
    (hresult : ∀ o ∈ result, C.outcome o) : (m.settle result k).Meets C

namespace Matcher.Maintains

variable {m : Matcher} {C : Conditions} {limits : SearchLimits} {fuel pos : Nat} {s s' : State}
  {o : Outcome}

theorem unwind (h : m.Maintains C) {items : List Checkpoint} {size : Nat} (hsize : size = items.length)
    {result : Option Outcome} (hitems : ∀ k ∈ items, C.checkpoint k)
    (hresult : ∀ o ∈ result, C.outcome o) : (m.unwind items size hsize result).Meets C := by
  induction items generalizing size result with
  | nil => exact hresult
  | cons k items ih =>
    obtain ⟨hk, hrest⟩ := List.forall_mem_cons.mp hitems
    have hverdict := h.settle hk hresult
    unfold Matcher.unwind
    generalize m.settle result k = verdict at hverdict
    cases verdict with
    | answer result => exact ih _ hrest hverdict
    | resume t again =>
      obtain ⟨ht, hagain⟩ := hverdict
      cases again with
      | none => exact ⟨ht, hrest⟩
      | some k' => exact ⟨ht, List.forall_mem_cons.mpr ⟨hagain k' rfl, hrest⟩⟩
    | abort why => trivial

theorem next (h : m.Maintains C) (hs : s.Meets C) (hnext : m.next? limits s = some s') :
    s'.Meets C := by
  have haction := h.step hs.config
  unfold next? at hnext
  generalize m.step s.config = action at haction hnext
  cases action with
  | go c =>
    cases hnext
    exact ⟨haction, hs.stack⟩
  | choose k c =>
    simp only at hnext
    split at hnext
    · cases hnext
    · cases hnext
      exact ⟨haction.2, List.forall_mem_cons.mpr ⟨haction.1, hs.stack⟩⟩
  | stop result =>
    have hunwound := h.unwind s.stack.size_eq hs.stack haction
    simp only at hnext
    generalize m.unwind s.stack.items s.stack.size s.stack.size_eq result = unwound
      at hnext hunwound
    cases unwound with
    | resume t stack =>
      cases hnext
      exact ⟨hunwound.1, hunwound.2⟩
    | finished | abort => cases hnext
  | abort why => cases hnext

theorem visits (h : m.Maintains C) (hstart : C.config (.ready (m.startThread pos)))
    (hs : m.Visits limits pos s) : s.Meets C := by
  induction hs with
  | start => exact ⟨hstart, fun k hk => absurd hk List.not_mem_nil⟩
  | next _ hnext ih => exact h.next ih hnext

theorem run (h : m.Maintains C) (hs : s.Meets C)
    (ho : (m.run limits fuel s.config s.stack).result = .ok (some o)) : C.outcome o := by
  induction fuel generalizing s with
  | zero => cases ho
  | succ fuel ih =>
    cases hnext : m.next? limits s with
    | some s' => exact ih (h.next hs hnext) (run_of_next? hnext ▸ ho)
    | none =>
      obtain ⟨result, hstep, hunwound⟩ := run_of_next?_eq_none hnext ho
      have haction := h.step hs.config
      rw [hstep] at haction
      have hmeets := h.unwind s.stack.size_eq hs.stack haction
      rw [hunwound] at hmeets
      exact hmeets o rfl

theorem search (h : m.Maintains C) (hstart : C.config (.ready (m.startThread pos)))
    (ho : (m.search limits fuel pos).result = .ok (some o)) : C.outcome o := by
  have hs : m.Visits limits pos (m.startState pos) := .start
  exact h.run (h.visits hstart hs) ho

end Matcher.Maintains

end PosixRegex
