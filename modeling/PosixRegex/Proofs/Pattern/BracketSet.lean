import PosixRegex.Program.Compile
import PosixRegex.Proofs.Ascii
import PosixRegex.Proofs.Pattern.Passage
import PosixRegex.Proofs.Pattern.Printing

namespace PosixRegex

namespace Locale

variable {l : Locale} {c x : Char}

theorem baseLetter_eq_or_lt (c : Char) : baseLetter c = c ∨ (baseLetter c).toNat < 128 := by
  have hall : ∀ entry ∈ baseLetters, entry.1.toNat < 128 := by decide
  unfold baseLetter
  split
  · exact Or.inl rfl
  · cases hfind : baseLetters.find? (·.2.contains c) with
    | none => exact Or.inl rfl
    | some entry => exact Or.inr (hall entry (List.mem_of_find?_eq_some hfind))

theorem mem_equivalents_iff : c ∈ l.equivalents x ↔ l.primaryWeight c = l.primaryWeight x := by
  cases l with
  | posix => exact List.mem_singleton.trans Char.toNat_inj.symm
  | unicode =>
    -- No base letter beyond the table is that of another character.
    have hself : ∀ y : Char, lastDecomposable < primaryWeight unicode y → baseLetter y = y := by
      intro y hy
      refine (baseLetter_eq_or_lt y).resolve_right fun hlt => ?_
      have hweight : lastDecomposable < (baseLetter y).toNat := hy
      unfold lastDecomposable at hweight
      omega
    unfold equivalents
    by_cases hlarge : lastDecomposable < primaryWeight unicode x
    · rw [if_pos hlarge, List.mem_singleton]
      constructor
      · rintro rfl
        rfl
      · intro hweight
        have hc := hself c (hweight ▸ hlarge)
        have hx := hself x hlarge
        rw [← hc, ← hx]
        exact Char.toNat_inj.mp hweight
    · rw [if_neg hlarge, List.mem_filter, beq_iff_eq]
      refine and_iff_right_of_imp fun hweight => ?_
      have hle : c.toNat ≤ lastDecomposable := by
        refine Nat.le_of_not_lt fun hlt => hlarge ?_
        rw [← hweight, primaryWeight, baseLetter_eq_self (Or.inr hlt)]
        exact hlt
      exact List.mem_map.mpr ⟨c.toNat, List.mem_range.mpr (Nat.lt_succ_of_le hle),
        Char.ofNat_toNat c⟩

end Locale

namespace BracketItem

def Names (l : Locale) (c : Char) : BracketItem → Prop
  | char x => c = x
  | range lo hi => Locale.uniqueWeight lo ≤ Locale.uniqueWeight c ∧
      Locale.uniqueWeight c ≤ Locale.uniqueWeight hi
  | equivalence x => l.primaryWeight c = l.primaryWeight x
  | cls _ => False

end BracketItem

namespace Bracket

variable {b : Bracket} {o : Options} {l : Locale} {c : Char}

def Names (b : Bracket) (l : Locale) (c : Char) : Prop := ∃ i ∈ b.items, i.Names l c

/-- Whether a bracket expression lists a character: by itself or through a class. If case is ignored
the counterparts of what it names are listed too, and so is the class opposite to a listed one. -/
def Declares (b : Bracket) (o : Options) (l : Locale) (c : Char) : Prop :=
  b.Names l c ∨ (∃ k, .cls k ∈ b.items ∧ l.isClass k c = true) ∨
    o.ignoreCase = true ∧ ((∃ x, b.Names l x ∧ l.opposite? x = some c) ∨
      ∃ k k', .cls k ∈ b.items ∧ k.opposite? = some k' ∧ l.isClass k' c = true)

end Bracket

theorem BracketItem.lists_iff_names {i : BracketItem} {o : Options} {l : Locale} {c : Char} :
    i.Lists o l c ↔ i.Names l c ∨ (∃ k, i = .cls k ∧ l.isClass k c = true) ∨
      o.ignoreCase = true ∧ ((∃ x, i.Names l x ∧ l.opposite? x = some c) ∨
        ∃ k k', i = .cls k ∧ k.opposite? = some k' ∧ l.isClass k' c = true) := by
  cases i with
  | char x => simp [Lists, Names]
  | range lo hi => simp [Lists, Names, Locale.uniqueWeight, and_assoc]
  | cls k => simp [Lists, Names]
  | equivalence x =>
    simp only [Lists, Names, Locale.mem_equivalents_iff]
    constructor
    · rintro ⟨y, hy, rfl | ⟨hcase, hopposite⟩⟩
      · exact Or.inl hy
      · exact Or.inr (Or.inr ⟨hcase, Or.inl ⟨y, hy, hopposite⟩⟩)
    · rintro (h | ⟨k, hk, -⟩ | ⟨hcase, ⟨y, hy, hopposite⟩ | ⟨k, k', hk, -⟩⟩)
      · exact ⟨c, h, Or.inl rfl⟩
      · cases hk
      · exact ⟨y, hy, Or.inr ⟨hcase, hopposite⟩⟩
      · cases hk

namespace Bracket

variable {b : Bracket} {o : Options} {l : Locale} {c : Char}

theorem exists_lists_iff_declares : (∃ i ∈ b.items, i.Lists o l c) ↔ b.Declares o l c := by
  simp only [BracketItem.lists_iff_names, Declares, Names]
  constructor
  · rintro ⟨i, hi, h | ⟨k, rfl, h⟩ | ⟨hcase, ⟨x, hx, h⟩ | ⟨k, k', rfl, hk', h⟩⟩⟩
    · exact Or.inl ⟨i, hi, h⟩
    · exact Or.inr (Or.inl ⟨k, hi, h⟩)
    · exact Or.inr (Or.inr ⟨hcase, Or.inl ⟨x, ⟨i, hi, hx⟩, h⟩⟩)
    · exact Or.inr (Or.inr ⟨hcase, Or.inr ⟨k, k', hi, hk', h⟩⟩)
  · rintro (⟨i, hi, h⟩ | ⟨k, hi, h⟩ | ⟨hcase, ⟨x, ⟨i, hi, hx⟩, h⟩ | ⟨k, k', hi, hk', h⟩⟩)
    · exact ⟨i, hi, Or.inl h⟩
    · exact ⟨_, hi, Or.inr (Or.inl ⟨k, rfl, h⟩)⟩
    · exact ⟨i, hi, Or.inr (Or.inr ⟨hcase, Or.inl ⟨x, hx, h⟩⟩)⟩
    · exact ⟨_, hi, Or.inr (Or.inr ⟨hcase, Or.inr ⟨k, k', rfl, hk', h⟩⟩)⟩

theorem admits_iff_declares : b.Admits o l c ↔ (b.Declares o l c ↔ b.negated = false) ∧
    ¬(b.negated = true ∧ o.newlineSensitive = true ∧ c = '\n') := by
  unfold Admits
  cases hb : b.negated with
  | false => simp [exists_lists_iff_declares]
  | true =>
    have hnone : (∀ i ∈ b.items, ¬i.Lists o l c) ↔ ¬b.Declares o l c := by
      rw [← exists_lists_iff_declares]
      simp
    simp [hnone]

theorem consume_consumer (hb : b.Ascending) {m : Matcher} {pos next : Nat} {slots : Slots} :
    m.consume (b.consumer o m.locale) pos slots = some next ↔
      ∃ c, m.subject.charAt? pos = some c ∧ b.Admits o m.locale c ∧ pos + c.utf8Size = next := by
  have haccept : m.consume (b.consumer o m.locale) pos slots =
      m.subject.accept ((b.consumer o m.locale).admits m.locale) pos := by
    unfold consumer
    split <;> rfl
  rw [haccept, Subject.accept_eq_some_iff]
  simp only [admits_consumer hb]

/-- A bracket expression of any items is read up to its closing bracket, and what it consumes is
a character that is listed, unless it is negated, and else one that is not. -/
theorem consume_of_print (b : Bracket) (hitems : b.items ≠ []) (hb : b.Ascending) (o : Options)
    (opened : Nat) (rest cs : List Char) (hcs : b.print ++ rest = '[' :: cs) :
    read opened ⟨cs, opened + 1⟩ = .ok (b, ⟨rest, opened + byteLength b.print⟩) ∧
    ∀ (m : Matcher) (pos next : Nat) (slots : Slots),
      m.consume (b.consumer o m.locale) pos slots = some next ↔
        ∃ c, m.subject.charAt? pos = some c ∧ pos + c.utf8Size = next ∧
          (b.Declares o m.locale c ↔ b.negated = false) ∧
          ¬(b.negated = true ∧ o.newlineSensitive = true ∧ c = '\n') := by
  constructor
  · obtain ⟨body, hbody⟩ : ∃ body, b.print = '[' :: body := ⟨_, rfl⟩
    obtain rfl : body ++ rest = cs := by
      rw [hbody] at hcs
      exact (List.cons.inj hcs).2
    obtain ⟨offset', hread⟩ := (read_print_or_descending hitems hbody opened (opened + 1)
      rest).resolve_right fun h => h.2 hb
    obtain ⟨text, htext, hoffset, -⟩ := yields_read hread
    obtain rfl : body = text := List.append_cancel_right htext
    have hone : '['.utf8Size = 1 := rfl
    rw [hread, hbody, byteLength, hone, ← Nat.add_assoc, ← hoffset]
  · intro m pos next slots
    rw [consume_consumer hb]
    simp only [admits_iff_declares]
    refine exists_congr fun c => and_congr_right fun _ => ?_
    exact and_comm

/-- Without regard to case `[[.-.]à-ü]` consumes `É`. -/
theorem consume_of_print_accented :
    [.char '-', .range 'à' 'ü'] ≠ ([] : List BracketItem) ∧
      Ascending ⟨false, [.char '-', .range 'à' 'ü']⟩ ∧
      read 0 ⟨['[', '.', '-', '.', ']', 'à', '-', 'ü', ']', '+'], 1⟩ =
        .ok (⟨false, [.char '-', .range 'à' 'ü']⟩, ⟨['+'], 12⟩) ∧
      Matcher.consume ⟨.ofPattern ⟨{}, .unicode, 255⟩ .done, .unicode, .ofList ['É'], {}⟩
        (consumer ⟨false, [.char '-', .range 'à' 'ü']⟩ { ignoreCase := true } .unicode) 0 #[] =
        some 2 := by
  have hasc : Ascending ⟨false, [.char '-', .range 'à' 'ü']⟩ := by
    intro lo hi hmem
    obtain ⟨rfl, rfl⟩ : lo = 'à' ∧ hi = 'ü' := by simpa using hmem
    decide
  have hall := consume_of_print ⟨false, [.char '-', .range 'à' 'ü']⟩ nofun hasc
    { ignoreCase := true } 0 ['+'] ['[', '.', '-', '.', ']', 'à', '-', 'ü', ']', '+'] rfl
  have hopposite : Locale.unicode.opposite? 'é' = some 'É' := by decide +kernel
  have hdeclares : Declares ⟨false, [.char '-', .range 'à' 'ü']⟩ { ignoreCase := true } .unicode
      'É' :=
    Or.inr (Or.inr ⟨rfl, Or.inl ⟨'é', ⟨.range 'à' 'ü', by simp, by decide, by decide⟩, hopposite⟩⟩)
  exact ⟨nofun, hasc, hall.1, (hall.2 _ 0 2 #[]).mpr
    ⟨'É', rfl, rfl, iff_of_true hdeclares rfl, nofun⟩⟩

end Bracket

end PosixRegex
