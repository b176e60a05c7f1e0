import PosixRegex.Search.Run

namespace PosixRegex

namespace Matcher

variable {m : Matcher} {limits limits' : SearchLimits} {fuel : Nat} {c : Config} {stack : Stack}

theorem fuel_run_le : (m.run limits fuel c stack).fuel ≤ fuel := by
  induction fuel generalizing c stack with
  | zero => exact Nat.le_refl 0
  | succ fuel ih =>
    unfold run
    cases m.step c with
    | go c => exact Nat.le_succ_of_le ih
    | choose k c =>
      simp only
      split
      · exact Nat.le_succ fuel
      · exact Nat.le_succ_of_le ih
    | abort why => exact Nat.le_succ fuel
    | stop result =>
      simp only
      cases m.unwind stack.items stack.size stack.size_eq result with
      | finished r | abort why => exact Nat.le_succ fuel
      | resume t stack => exact Nat.le_succ_of_le ih

theorem run_add (hrec : limits'.recursion = limits.recursion) (extra : Nat)
    (h : ∀ n, (m.run limits fuel c stack).result ≠ .error (.error (.fuelExhausted n))) :
    m.run limits' (fuel + extra) c stack =
      ⟨(m.run limits fuel c stack).result, (m.run limits fuel c stack).fuel + extra⟩ := by
  induction fuel generalizing c stack with
  | zero => exact absurd rfl (h limits.fuel)
  | succ fuel ih =>
    rw [Nat.succ_add]
    unfold run at h ⊢
    cases hstep : m.step c with
    | go c =>
      simp only [hstep] at h ⊢
      exact ih h
    | choose k c =>
      simp only [hstep, hrec] at h ⊢
      by_cases hfull : limits.recursion ≤ stack.size
      · simp only [if_pos hfull]
      · simp only [if_neg hfull] at h ⊢
        exact ih h
    | abort why => rfl
    | stop result =>
      simp only [hstep] at h ⊢
      cases hunwind : m.unwind stack.items stack.size stack.size_eq result with
      | finished r | abort why => rfl
      | resume t stack =>
        simp only [hunwind] at h ⊢
        exact ih h

end Matcher

end PosixRegex
