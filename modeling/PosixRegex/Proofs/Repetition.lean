import PosixRegex.Repetition

namespace PosixRegex

namespace Repetition

variable {times : Repetition} {count c : Nat}

def isFixed (times : Repetition) : Bool := times.max? == some times.min

def Ordered (times : Repetition) : Prop := ∀ n, times.max? = some n → times.min ≤ n

theorem belowMax_iff : times.belowMax count = true ↔ ∀ n, times.max? = some n → count < n := by
  unfold belowMax
  cases times.max? with
  | none => simp
  | some n => simp

theorem belowMax_of_le (h : times.belowMax count = true) (hc : c ≤ count) :
    times.belowMax c = true :=
  belowMax_iff.mpr fun n hn => Nat.lt_of_le_of_lt hc (belowMax_iff.mp h n hn)

theorem belowMax_of_lt_min (h : times.Ordered) (hc : c < times.min) : times.belowMax c = true :=
  belowMax_iff.mpr fun n hn => Nat.lt_of_lt_of_le hc (h n hn)

theorem min_le_of_full (h : times.Ordered) (hfull : times.belowMax (count + 1) = false) :
    times.min ≤ count + 1 := by
  refine Nat.le_of_not_lt fun hlt => ?_
  rw [belowMax_of_lt_min h hlt] at hfull
  cases hfull

theorem ordered_of_isFixed (h : times.isFixed = true) : times.Ordered := by
  intro n hn
  exact Nat.le_of_eq (Option.some.inj ((beq_iff_eq.mp h).symm.trans hn))

theorem lt_min_of_isFixed (h : times.isFixed = true) (hmax : times.belowMax count = true) :
    count < times.min :=
  belowMax_iff.mp hmax times.min (beq_iff_eq.mp h)

theorem ne_once_of_belowMax (h : times.belowMax (count + 1) = true) : times ≠ .once := by
  rintro rfl
  simp [belowMax, max?] at h

end Repetition

end PosixRegex
