import PosixRegex.Proofs.Search.Fuel
import PosixRegex.Proofs.Search.Safety

namespace PosixRegex

namespace Matcher

variable {m : Matcher} {limits limits' : SearchLimits} {fuel : Nat} {c : Config} {stack : Stack}

theorem run_of_recursion_le (hfuel : limits'.fuel = limits.fuel)
    (hrec : limits.recursion ≤ limits'.recursion)
    (h : ∀ n, (m.run limits fuel c stack).result ≠ .error (.error (.recursionLimit n))) :
    m.run limits' fuel c stack = m.run limits fuel c stack := by
  induction fuel generalizing c stack with
  | zero => rw [run, run, hfuel]
  | succ fuel ih =>
    unfold run at h ⊢
    cases hstep : m.step c with
    | go c =>
      simp only [hstep] at h ⊢
      exact ih h
    | choose k c =>
      simp only [hstep] at h ⊢
      by_cases hfull : limits.recursion ≤ stack.size
      · rw [if_pos hfull] at h
        exact absurd rfl (h limits.recursion)
      · have hfull' : ¬limits'.recursion ≤ stack.size := by omega
        rw [if_neg hfull] at h
        rw [if_neg hfull, if_neg hfull']
        exact ih h
    | abort why => rfl
    | stop result =>
      simp only [hstep] at h ⊢
      cases hunwind : m.unwind stack.items stack.size stack.size_eq result with
      | finished r | abort why => rfl
      | resume t stack =>
        simp only [hunwind] at h ⊢
        exact ih h

/-- Two scans end in the same way if each search of the first one does that has not been stopped in
the given way. What the second one has in additional fuel is handed on. -/
theorem scan_eq_of_search {capture count pos : Nat} (extra : Nat) (stopped : SearchError → Prop)
    (hsearch : ∀ fuel pos,
      (∀ e, stopped e → (m.search limits fuel pos).result ≠ .error (.error e)) →
      m.search limits' (fuel + extra) pos =
        ⟨(m.search limits fuel pos).result, (m.search limits fuel pos).fuel + extra⟩)
    (h : ∀ e, stopped e → m.scan limits capture count pos fuel ≠ .error e) :
    m.scan limits' capture count pos (fuel + extra) = m.scan limits capture count pos fuel := by
  induction count generalizing pos fuel with
  | zero => rfl
  | succ count ih =>
    unfold scan at h ⊢
    by_cases ha : m.admits pos = true
    · simp only [if_pos ha] at h ⊢
      have hfirst : ∀ e, stopped e → (m.search limits fuel pos).result ≠ .error (.error e) := by
        intro e hs he
        rw [he] at h
        exact h e hs rfl
      rw [hsearch fuel pos hfirst]
      cases hresult : (m.search limits fuel pos).result with
      | ok result =>
        cases result with
        | none =>
          simp only [hresult] at h ⊢
          exact ih h
        | some o => rfl
      | error why =>
        cases why with
        | anchorViolation => rfl
        | error e => rfl
    · simp only [if_neg ha] at h ⊢
      exact ih h

/-- A result that is not due to a limit is the same under every larger one. -/
theorem execute_eq_of_limit_le (m : Matcher) (limits : SearchLimits) (start capture : Nat) :
    (∀ fuel, limits.fuel ≤ fuel →
      (∀ n, m.execute limits start capture ≠ .error (.fuelExhausted n)) →
      m.execute { limits with fuel } start capture = m.execute limits start capture) ∧
    (∀ recursion, limits.recursion ≤ recursion →
      (∀ n, m.execute limits start capture ≠ .error (.recursionLimit n)) →
      m.execute { limits with recursion } start capture = m.execute limits start capture) := by
  constructor
  · intro fuel hle h
    obtain ⟨extra, rfl⟩ := Nat.exists_eq_add_of_le hle
    unfold execute
    refine scan_eq_of_search extra (∃ n, · = .fuelExhausted n) (fun fuel pos hs => ?_) ?_
    · refine run_add ?_ extra fun n => hs _ ⟨n, rfl⟩
      rfl
    · rintro _ ⟨n, rfl⟩
      exact h n
  · intro recursion hle h
    unfold execute
    refine scan_eq_of_search 0 (∃ n, · = .recursionLimit n) (fun fuel pos hs => ?_) ?_
    · refine run_of_recursion_le ?_ hle fun n => hs _ ⟨n, rfl⟩
      rfl
    · rintro _ ⟨n, rfl⟩
      exact h n

/-- A run that one limit stops does not depend on the other one. -/
theorem execute_eq_of_limit_le_crossing :
    (crossing ['a', 'b', 'a', 'b']).execute ⟨1000, 2⟩ 0 3 = .error (.recursionLimit 2) ∧
    (crossing ['a', 'b', 'a', 'b']).execute ⟨5, 1000⟩ 0 3 = .error (.fuelExhausted 5) := by
  have hrec : (crossing ['a', 'b', 'a', 'b']).execute ⟨20, 2⟩ 0 3 = .error (.recursionLimit 2) := by
    decide +kernel
  have hfuel : (crossing ['a', 'b', 'a', 'b']).execute ⟨5, 100⟩ 0 3 =
      .error (.fuelExhausted 5) := by
    decide +kernel
  refine ⟨Eq.trans ?_ hrec, Eq.trans ?_ hfuel⟩
  · exact (execute_eq_of_limit_le _ ⟨20, 2⟩ 0 3).1 1000 (by decide) (by simp [hrec])
  · exact (execute_eq_of_limit_le _ ⟨5, 100⟩ 0 3).2 1000 (by decide) (by simp [hfuel])

end Matcher

end PosixRegex
