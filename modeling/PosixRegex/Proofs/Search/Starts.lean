import PosixRegex.Proofs.Search.LeftmostLongest
import PosixRegex.Proofs.Search.Limits
import PosixRegex.Proofs.Search.Session
import PosixRegex.Proofs.Search.Skipping

namespace PosixRegex

namespace Matcher

variable {m : Matcher} {t : Target} {p : Pattern} {limits : SearchLimits}
  {capture count count' pos start fuel fuel' : Nat} {caps : Captures}

theorem scan_of_fuel_le (hle : fuel ≤ fuel') {found : Option Captures}
    (h : m.scan limits capture count pos fuel = .ok found) :
    m.scan limits capture count pos fuel' = .ok found := by
  obtain ⟨extra, rfl⟩ := Nat.exists_eq_add_of_le hle
  rw [← h]
  refine scan_eq_of_search extra (∃ n, · = .fuelExhausted n) (fun fuel pos hs => ?_) ?_
  · exact run_add rfl extra fun n => hs _ ⟨n, rfl⟩
  · rintro _ ⟨n, rfl⟩
    simp [h]

theorem scan_of_start_le (hm : m.program = .ofPattern t p) (hle : fuel ≤ fuel')
    (h : m.scan limits capture count pos fuel = .ok (some caps)) (hstart : pos ≤ start)
    (hcaps : start ≤ caps.whole.start) (hcount : start + count' = pos + count) :
    m.scan limits capture count' start fuel' = .ok (some caps) := by
  induction count generalizing pos fuel with
  | zero => cases h
  | succ count ih =>
    by_cases hpos : start = pos
    · subst hpos
      obtain rfl : count' = count + 1 := by omega
      exact scan_of_fuel_le hle h
    · unfold scan at h
      by_cases ha : m.admits pos = true
      · simp only [if_pos ha] at h
        have hleft : (m.search limits fuel pos).fuel ≤ fuel' := Nat.le_trans fuel_run_le hle
        split at h
        · rename_i o ho
          obtain ⟨s, hw, rfl⟩ := search_some hm ho
          obtain rfl := Option.some.inj (Except.ok.inj h)
          rw [whole_ofSlots hm hw] at hcaps
          exact absurd hcaps (by simp only; omega)
        · exact ih hleft h (by omega) (by omega)
        · cases h
        · cases h
      · rw [if_neg ha] at h
        exact ih hle h (by omega) (by omega)

theorem scan_of_anchored (hm : m.program = .ofPattern t p)
    (h : m.program.flags.anchored = true) (hpos : pos ≠ 0) :
    m.scan limits capture count pos (fuel + 1) = .ok none := by
  induction count generalizing pos with
  | zero => rfl
  | succ count ih =>
    unfold scan
    by_cases ha : m.admits pos = true
    · simp only [if_pos ha, search_succ_of_anchored hm h hpos]
    · rw [if_neg ha]
      exact ih (Nat.succ_ne_zero pos)

theorem scan_eq_none_of_start_le (hm : m.program = .ofPattern t p) (hp : m.program.Connected)
    (hle : fuel ≤ fuel') (h : m.scan limits capture count pos fuel = .ok none)
    (hstart : pos ≤ start) (hcount : start + count' = pos + count) :
    m.scan limits capture count' start fuel' = .ok none := by
  induction count generalizing pos fuel with
  | zero =>
    obtain rfl : count' = 0 := by omega
    rfl
  | succ count ih =>
    by_cases hpos : start = pos
    · subst hpos
      obtain rfl : count' = count + 1 := by omega
      exact scan_of_fuel_le hle h
    · unfold scan at h
      by_cases ha : m.admits pos = true
      · simp only [if_pos ha] at h
        have hleft : (m.search limits fuel pos).fuel ≤ fuel' := Nat.le_trans fuel_run_le hle
        have hends := endsWell_search hp limits fuel pos
        split at h
        · cases h
        · exact ih hleft h (by omega) (by omega)
        · rename_i hviolated
          -- The attempt at `pos` has taken a step, so that there is fuel for one at the later start.
          rw [hviolated] at hends
          obtain ⟨left, rfl⟩ : ∃ left, fuel' = left + 1 := by
            cases fuel' with
            | zero =>
              obtain rfl := Nat.le_zero.mp hle
              cases hviolated
            | succ left => exact ⟨left, rfl⟩
          exact scan_of_anchored hm hends (by omega)
        · cases h
      · rw [if_neg ha] at h
        exact ih hle h (by omega) (by omega)

/-- The same is found from every later start that is not behind the match, if there is one. -/
theorem execute_of_start_le (hm : m.program = .ofPattern t p) (hp : m.program.Connected)
    {found : Option Captures} (h : m.execute limits pos capture = .ok found) (hstart : pos ≤ start)
    (hcaps : ∀ caps ∈ found, start ≤ caps.whole.start) :
    m.execute limits start capture = .ok found := by
  by_cases hsize : start ≤ m.subject.size
  · have hcount : start + (m.subject.size + 1 - start) = pos + (m.subject.size + 1 - pos) := by omega
    cases found with
    | none => exact scan_eq_none_of_start_le hm hp (Nat.le_refl _) h hstart hcount
    | some caps => exact scan_of_start_le hm (Nat.le_refl _) h hstart (hcaps caps rfl) hcount
  · cases found with
    | none =>
      have hcount : m.subject.size + 1 - start = 0 := by omega
      rw [execute, hcount, scan]
    | some caps =>
      obtain ⟨slots, -, hboundary, -⟩ := exists_walk_of_execute hm h
      have hle := Subject.le_size_of_isBoundary hboundary
      exact absurd (hcaps caps rfl) (by omega)

end Matcher

open Matcher

/-- Starts are independent. Whatever calls a session has served, it finds the same match from every
start up to that match, and if it finds nothing, it finds nothing from any later start either. -/
theorem Session.execute_of_later_start {o : Options} {l : Locale} {compileLimits : CompileLimits}
    {text : List Char} {m : Matcher}
    (hc : Program.compile o l compileLimits text = .ok m.program) (limits : SearchLimits)
    (calls calls' : List (Nat × Nat)) (capture : Nat) {pos start : Nat} (hstart : pos ≤ start) :
    (∀ caps, (((fresh m limits).after calls).execute pos capture).1 = .ok (some caps) →
      start ≤ caps.whole.start →
      (((fresh m limits).after calls').execute start capture).1 = .ok (some caps)) ∧
    ((((fresh m limits).after calls).execute pos capture).1 = .ok none →
      (((fresh m limits).after calls').execute start capture).1 = .ok none) := by
  obtain ⟨p, -, hm⟩ := Program.exists_ofPattern hc
  have hp := Program.connected_of_compile hc
  simp only [execute_eq, after_eq]
  refine ⟨fun caps h hcaps => ?_, fun h => ?_⟩
  · exact execute_of_start_le hm hp h hstart (by simpa using hcaps)
  · exact execute_of_start_le hm hp h hstart (by simp)

def briefly : Session := .fresh (accentedIn ['ä', 'x', 'b', 'c']) ⟨10, 100⟩

/-- A call that has exhausted its fuel and has left a checkpoint is followed by one that starts inside
of the first character, and by one that starts with the match. -/
theorem Session.execute_of_later_start_briefly :
    ((briefly.execute 0 2).1 = .error (.fuelExhausted 10) ∧
      (briefly.execute 0 2).2.pending.length = 1) ∧
    ((briefly.after [(0, 2), (1, 2)]).execute 3 2).1 =
      .ok (some ⟨[some ⟨3, 5⟩, some ⟨3, 4⟩]⟩) ∧
    ((briefly.after [(0, 2), (4, 2)]).execute 5 2).1 = .ok none := by
  have hc : Program.compile { dialect := .extended } .posix {} ['(', 'ä', '|', 'b', ')', 'c'] =
      .ok (accentedIn ['ä', 'x', 'b', 'c']).program := by
    decide
  have hfound : ((briefly.after [(0, 2)]).execute 1 2).1 =
      .ok (some ⟨[some ⟨3, 5⟩, some ⟨3, 4⟩]⟩) := by
    decide +kernel
  have hnone : ((briefly.after [(0, 2)]).execute 4 2).1 = .ok none := by
    decide +kernel
  refine ⟨by decide +kernel, ?_, ?_⟩
  · exact (execute_of_later_start hc ⟨10, 100⟩ [(0, 2)] [(0, 2), (1, 2)] 2 (show 1 ≤ 3 by decide)).1
      _ hfound (by decide)
  · exact (execute_of_later_start hc ⟨10, 100⟩ [(0, 2)] [(0, 2), (4, 2)] 2 (show 4 ≤ 5 by decide)).2
      hnone

end PosixRegex
