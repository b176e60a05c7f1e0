import PosixRegex.Proofs.Ascii
import PosixRegex.Proofs.Locale
import PosixRegex.Proofs.Pattern.Membership
import PosixRegex.Proofs.Subject

namespace PosixRegex

def Caseless (P : Char → Bool) : Prop := ∀ c, P c.toLower = P c

theorem Caseless.any_map {P : Char → Bool} (h : Caseless P) (c? : Option Char) :
    (c?.map Char.toLower).any P = c?.any P := by
  cases c? with
  | none => rfl
  | some c => exact h c

namespace Locale

variable {a b c : Char}

theorem uncased_of_le (hc : 128 ≤ c.toNat) : c.toLower = c ∧ posix.opposite? c = none := by
  have halpha : c.isAlpha = false := by
    by_contra h
    have := CharClass.toNat_lt_of_isAlpha (by simpa using h)
    omega
  obtain ⟨hupper, hlower⟩ := Bool.or_eq_false_iff.mp halpha
  exact ⟨dif_neg (of_decide_eq_false hupper), by simp [opposite?, hupper, hlower]⟩

theorem toLower_cases (c : Char) : c.toLower = c ∨
    posix.opposite? c = some c.toLower ∧ posix.opposite? c.toLower = some c := by
  rcases Nat.lt_or_ge c.toNat 128 with hc | hc
  · exact of_forall_code (P := fun c => c.toLower = c ∨
      posix.opposite? c = some c.toLower ∧ posix.opposite? c.toLower = some c) (by decide +kernel) hc
  · exact Or.inl (uncased_of_le hc).1

theorem toLower_of_opposite? (h : posix.opposite? a = some b) : a ≠ b ∧ a.toLower = b.toLower := by
  rcases Nat.lt_or_ge a.toNat 128 with ha | ha
  · have hall := of_forall_code (P := fun a => (posix.opposite? a).all
      (fun b => a ≠ b ∧ a.toLower = b.toLower) = true) (by decide +kernel) ha
    rw [h] at hall
    exact of_decide_eq_true hall
  · rw [(uncased_of_le ha).2] at h
    cases h

theorem opposite?_posix_iff : posix.opposite? a = some b ↔ a ≠ b ∧ a.toLower = b.toLower := by
  constructor
  · exact toLower_of_opposite?
  · rintro ⟨hne, hlower⟩
    rcases toLower_cases a with ha | ⟨ha, ha'⟩
    · rcases toLower_cases b with hb | ⟨-, hb'⟩
      · exact absurd (ha.symm.trans (hlower.trans hb)) hne
      · rwa [← hlower, ha] at hb'
    · rcases toLower_cases b with hb | ⟨-, hb'⟩
      · rwa [hlower, hb] at ha
      · rw [← hlower, ha'] at hb'
        exact absurd (Option.some.inj hb') hne

theorem same_letter_iff : b = a ∨ posix.opposite? a = some b ↔ b.toLower = a.toLower := by
  rw [opposite?_posix_iff]
  constructor
  · rintro (rfl | ⟨-, h⟩)
    · rfl
    · exact h.symm
  · intro h
    by_cases hab : b = a
    · exact Or.inl hab
    · exact Or.inr ⟨Ne.symm hab, h.symm⟩

theorem foldEq_posix (a b : Char) : posix.foldEq a b = (b.toLower == a.toLower) := by
  rw [Bool.eq_iff_iff, beq_iff_eq, ← same_letter_iff, foldEq, Bool.or_eq_true, beq_iff_eq,
    beq_iff_eq, eq_comm]

end Locale

theorem Caseless.of_ascii {P : Char → Bool} (h : ∀ c, c.toNat < 128 → P c.toLower = P c) :
    Caseless P := by
  intro c
  rcases Nat.lt_or_ge c.toNat 128 with hc | hc
  · exact h c hc
  · rw [(Locale.uncased_of_le hc).1]

theorem caseless_isWord : Caseless Locale.posix.isWord :=
  .of_ascii fun _ => of_forall_code
    (P := fun c => Locale.posix.isWord c.toLower = Locale.posix.isWord c) (by decide +kernel)

theorem toLower_toLower (c : Char) : c.toLower.toLower = c.toLower := by
  rcases Locale.toLower_cases c with h | ⟨h, -⟩
  · exact congrArg Char.toLower h
  · exact (Locale.toLower_of_opposite? h).2.symm

theorem toLower_lt {c : Char} (hc : c.toNat < 128) : c.toLower.toNat < 128 :=
  of_forall_code (P := fun c => c.toLower.toNat < 128) (by decide +kernel) hc

theorem utf8Size_toLower (c : Char) : c.toLower.utf8Size = c.utf8Size := by
  rcases Nat.lt_or_ge c.toNat 128 with hc | hc
  · exact of_forall_code (P := fun c => c.toLower.utf8Size = c.utf8Size) (by decide +kernel) hc
  · rw [(Locale.uncased_of_le hc).1]

theorem toLower_eq_newline_iff {c : Char} : c.toLower = '\n' ↔ c = '\n' := by
  constructor
  · exact fun h => not_imp_not.mp Unicode.toLower_ne_newline h
  · rintro rfl
    rfl

theorem layout_map_toLower (cs : List Char) :
    layout (cs.map Char.toLower) = (layout cs).map (Option.map Char.toLower) := by
  induction cs with
  | nil => rfl
  | cons c cs ih =>
    simp only [layout, List.map_cons, List.flatMap_cons, List.map_append, List.map_replicate,
      utf8Size_toLower] at ih ⊢
    rw [ih]
    rfl

namespace Subject

variable {s : Subject} {P : Char → Bool}

def lower (s : Subject) : Subject := .ofList (s.chars.map Char.toLower)

theorem cells_lower (s : Subject) : s.lower.cells = s.cells.map (Option.map Char.toLower) := by
  have hcells : s.lower.cells = (layout (s.chars.map Char.toLower)).toArray := rfl
  rw [hcells, layout_map_toLower, s.cells_eq, List.map_toArray]

theorem size_lower (s : Subject) : s.lower.size = s.size := by
  rw [size, cells_lower, Array.size_map, size]

theorem charAt?_lower (s : Subject) (pos : Nat) :
    s.lower.charAt? pos = (s.charAt? pos).map Char.toLower := by
  rw [charAt?, cells_lower, Array.getElem?_map, charAt?]
  cases s.cells[pos]? with
  | none => rfl
  | some cell => cases cell <;> rfl

theorem charBefore?_lower (s : Subject) (pos : Nat) :
    s.lower.charBefore? pos = (s.charBefore? pos).map Char.toLower := by
  induction pos with
  | zero => rfl
  | succ pos ih => rw [charBefore?, charBefore?, charAt?_lower, ih, Option.map_or]

theorem slice_lower (s : Subject) (start stop : Nat) :
    s.lower.slice start stop = (s.slice start stop).map Char.toLower := by
  rw [slice, slice, cells_lower, ← Array.map_extract, Array.toList_map]
  generalize (s.cells.extract start stop).toList = cells
  change (cells.map (Option.map Char.toLower)).filterMap id = (cells.filterMap id).map Char.toLower
  rw [List.filterMap_map, List.map_filterMap]
  rfl

theorem accept_lower (hP : Caseless P) (pos : Nat) : s.lower.accept P pos = s.accept P pos := by
  rw [accept, accept, charAt?_lower]
  cases s.charAt? pos with
  | none => rfl
  | some c => simp only [Option.map_some, hP c, utf8Size_toLower]

end Subject

end PosixRegex
