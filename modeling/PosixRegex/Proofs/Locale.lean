import PosixRegex.Locale

namespace PosixRegex

namespace Unicode

variable {c : Char}

theorem mem_of_locateBetween {α : Type} {start : α → Nat} {table : Array α}
    {code steps low high : Nat} {entry : α}
    (h : locateBetween start table code steps low high = some entry) : entry ∈ table := by
  induction steps generalizing low high with
  | zero => exact Array.mem_of_getElem? h
  | succ steps ih =>
    unfold locateBetween at h
    split at h
    · exact Array.mem_of_getElem? h
    · simp only at h
      split at h
      · cases h
      · split at h
        · exact ih h
        · exact ih h

theorem ShiftedRun.apply_ne_newline {table : Array ShiftedRun}
    (htable : ∀ r ∈ table, ('\n'.toNat : Int) < r.run.first + r.shift) (hc : c ≠ '\n') :
    apply table c ≠ '\n' := by
  unfold apply
  split
  · exact hc
  · rename_i r hr
    split
    · rename_i hholds
      have hlt := htable r (mem_of_locateBetween hr)
      simp only [Run.holds, Bool.and_eq_true, decide_eq_true_eq] at hholds
      intro h
      by_cases hvalid : (c.toNat + r.shift).toNat.isValidChar
      · rw [Char.ofNat, dif_pos hvalid] at h
        have hcode : (c.toNat + r.shift).toNat = '\n'.toNat := congrArg Char.toNat h
        omega
      · rw [Char.ofNat, dif_neg hvalid] at h
        cases congrArg Char.toNat h
    · exact hc

theorem toUpper_ne_newline (hc : c ≠ '\n') : c.toUpper ≠ '\n' := by
  intro h
  unfold Char.toUpper at h
  split at h
  · rename_i hcase
    have hbounds : 97 ≤ c.val.toNat ∧ c.val.toNat ≤ 122 := hcase
    have hdown : ('A'.val - 'a'.val).toNat = 2 ^ 32 - 32 := by decide
    have hcode := congrArg (fun d : Char => d.val.toNat) h
    simp only [UInt32.toNat_add, hdown, show '\n'.val.toNat = 10 from rfl] at hcode
    omega
  · exact hc h

theorem toLower_ne_newline (hc : c ≠ '\n') : c.toLower ≠ '\n' := by
  intro h
  unfold Char.toLower at h
  split at h
  · rename_i hcase
    have hbounds : 65 ≤ c.val.toNat ∧ c.val.toNat ≤ 90 := hcase
    have hup : ('a'.val - 'A'.val).toNat = 32 := by decide
    have hcode := congrArg (fun d : Char => d.val.toNat) h
    simp only [UInt32.toNat_add, hup, show '\n'.val.toNat = 10 from rfl] at hcode
    omega
  · exact hc h

theorem toUppercase?_ne_newline (hc : c ≠ '\n') : toUppercase? c ≠ some '\n' := by
  unfold toUppercase?
  split
  · simpa using toUpper_ne_newline hc
  · split
    · exact Option.some_ne_none _ |>.symm
    · simpa using ShiftedRun.apply_ne_newline (by decide +kernel) hc

theorem toLowercase?_ne_newline (hc : c ≠ '\n') : toLowercase? c ≠ some '\n' := by
  unfold toLowercase?
  split
  · simpa using toLower_ne_newline hc
  · split
    · exact Option.some_ne_none _ |>.symm
    · simpa using ShiftedRun.apply_ne_newline (by decide +kernel) hc

end Unicode

namespace Locale

theorem opposite?_ne_newline (l : Locale) (c : Char) : l.opposite? c ≠ some '\n' := by
  by_cases hc : c = '\n'
  · subst hc
    cases l <;> decide
  · cases l with
    | posix =>
      simp only [opposite?]
      split
      · simpa using Unicode.toUpper_ne_newline hc
      · split
        · simpa using Unicode.toLower_ne_newline hc
        · exact Option.some_ne_none _ |>.symm
    | unicode =>
      simp only [opposite?]
      split
      · exact Unicode.toUppercase?_ne_newline hc
      · split
        · exact Unicode.toLowercase?_ne_newline hc
        · exact Option.some_ne_none _ |>.symm

theorem isWord_newline (l : Locale) : l.isWord '\n' = false := by
  cases l <;> decide

theorem foldEq_newline {l : Locale} {c : Char} (hc : c ≠ '\n') : l.foldEq c '\n' = false := by
  simp [foldEq, hc, opposite?_ne_newline]

end Locale

end PosixRegex
