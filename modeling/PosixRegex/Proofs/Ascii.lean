import PosixRegex.Locale

namespace PosixRegex

theorem of_forall_code {P : Char → Prop} {bound : Nat} (h : ∀ n < bound, P (Char.ofNat n))
    {c : Char} (hc : c.toNat < bound) : P c :=
  Char.ofNat_toNat c ▸ h c.toNat hc

def Ascii (cs : List Char) : Prop := ∀ c ∈ cs, c.toNat < 128

instance (cs : List Char) : Decidable (Ascii cs) :=
  decidable_of_iff (cs.all (·.toNat < 128) = true) (by simp [Ascii])

theorem ascii_singleton {c : Char} : Ascii [c] ↔ c.toNat < 128 := List.forall_mem_singleton

namespace Locale

variable {c d x y : Char}

theorem isClass_ascii (hc : c.toNat < 128) (k : CharClass) :
    unicode.isClass k c = posix.isClass k c :=
  of_forall_code (P := fun c => ∀ k ∈ CharClass.all, unicode.isClass k c = posix.isClass k c)
    (by decide +kernel) hc k (CharClass.mem_all k)

theorem opposite?_ascii (hc : c.toNat < 128) : unicode.opposite? c = posix.opposite? c :=
  of_forall_code (P := fun c => unicode.opposite? c = posix.opposite? c) (by decide +kernel) hc

theorem isWord_ascii (hc : c.toNat < 128) : unicode.isWord c = posix.isWord c := by
  rw [isWord, isWord, isClass_ascii hc]

theorem foldEq_ascii (hc : c.toNat < 128) : unicode.foldEq c x = posix.foldEq c x := by
  rw [foldEq, foldEq, opposite?_ascii hc]

theorem baseLetter_eq_self (hc : c.toNat < 128 ∨ lastDecomposable < c.toNat) :
    baseLetter c = c := by
  rw [baseLetter, if_pos]
  simpa using hc

theorem le_of_opposite?_accented (hbase : (baseLetter y).toNat < 128) (hy : 128 ≤ y.toNat)
    (h : unicode.opposite? y = some d) : 128 ≤ d.toNat := by
  have hall : (baseLetters.all fun entry => entry.2.all fun y =>
      (unicode.opposite? y).all (128 ≤ ·.toNat)) = true := by decide +kernel
  have hne : baseLetter y ≠ y := fun heq => Nat.not_lt_of_le hy (heq ▸ hbase)
  unfold baseLetter at hne
  split at hne
  · exact absurd rfl hne
  · cases hfind : baseLetters.find? (·.2.contains y) with
    | none => exact absurd (by rw [hfind]; rfl) hne
    | some entry =>
      have hmem : y ∈ entry.2 := by simpa using List.find?_some hfind
      have hentry := List.all_eq_true.mp hall entry (List.mem_of_find?_eq_some hfind)
      have hletter := List.all_eq_true.mp hentry y hmem
      rw [h] at hletter
      exact of_decide_eq_true hletter

theorem mem_equivalents_ascii (hx : x.toNat < 128) (h : y ∈ unicode.equivalents x) :
    y = x ∨ 128 ≤ y.toNat ∧ (baseLetter y).toNat < 128 := by
  have hweight : (baseLetter y).toNat = x.toNat := by
    unfold equivalents at h
    simp only [primaryWeight, baseLetter_eq_self (Or.inl hx)] at h
    split at h
    · rw [List.mem_singleton.mp h, baseLetter_eq_self (Or.inl hx)]
    · exact beq_iff_eq.mp (List.mem_filter.mp h).2
  by_cases hy : y.toNat < 128
  · rw [baseLetter_eq_self (Or.inl hy)] at hweight
    exact Or.inl (Char.toNat_inj.mp hweight)
  · exact Or.inr ⟨Nat.le_of_not_lt hy, hweight ▸ hx⟩

theorem mem_equivalents_self (hx : x.toNat < 128) : x ∈ unicode.equivalents x := by
  unfold equivalents
  simp only
  split
  · exact List.mem_singleton_self x
  · have hlt : x.toNat < lastDecomposable + 1 := Nat.lt_trans hx (by decide)
    have hmem : x ∈ (List.range (lastDecomposable + 1)).map Char.ofNat :=
      List.mem_map.mpr ⟨x.toNat, List.mem_range.mpr hlt, Char.ofNat_toNat x⟩
    exact List.mem_filter.mpr ⟨hmem, beq_self_eq_true _⟩

end Locale

end PosixRegex
