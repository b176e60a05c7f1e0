import Mathlib.Data.Nat.Bitwise
import PosixRegex.Proofs.RangeSet
import PosixRegex.WordSet

namespace PosixRegex

namespace WordSet

/-- The words reach from the first member to the last one, and no further than 32 bits do. -/
structure Canonical (s : WordSet) : Prop where
  aligned : s.base % 64 = 0
  fits : s.base + 64 * s.words.length ≤ 2 ^ 32
  empty (h : s.words = []) : s.base = 0
  first (h : s.words ≠ []) : ∃ w, s.contains w = true ∧ w < s.base + 64
  last (h : s.words ≠ []) : ∃ w, s.contains w = true ∧ s.base + 64 * s.words.length ≤ w + 64

variable {s s' : WordSet} {base lo hi i j k n w : Nat} {word : BitVec 64} {words : List (BitVec 64)}
  {r : ClosedRange} {rs : List ClosedRange}

section Contains

theorem contains_iff : s.contains w = true ↔ s.base ≤ w ∧
    ∃ word, s.words[(w - s.base) / 64]? = some word ∧ word.getLsbD ((w - s.base) % 64) = true := by
  unfold contains offset?
  split
  · rename_i hle
    simp [hle, Option.any_eq_true]
  · rename_i hlt
    simp [hlt]

theorem lt_of_contains (h : s.contains w = true) : w < s.base + 64 * s.words.length := by
  obtain ⟨hle, word, hword, -⟩ := contains_iff.mp h
  obtain ⟨hlt, -⟩ := List.getElem?_eq_some_iff.mp hword
  omega

theorem contains_place_iff (hj : j < 64) : s.contains (s.base + 64 * i + j) = true ↔
    ∃ word, s.words[i]? = some word ∧ word.getLsbD j = true := by
  have hi : (s.base + 64 * i + j - s.base) / 64 = i := by omega
  have hj : (s.base + 64 * i + j - s.base) % 64 = j := by omega
  rw [contains_iff, hi, hj]
  exact and_iff_right (by omega)

theorem not_contains_nil : ¬(WordSet.mk base []).contains w = true := by
  simp [contains_iff]

theorem contains_cons_iff : (WordSet.mk base (word :: words)).contains w = true ↔
    (base ≤ w ∧ w < base + 64 ∧ word.getLsbD (w - base) = true) ∨
      (WordSet.mk (base + 64) words).contains w = true := by
  simp only [contains_iff]
  by_cases hlt : w < base + 64
  · have hplace : (w - base) / 64 = 0 := by omega
    have hbit : (w - base) % 64 = w - base := by omega
    simp [hplace, hbit, hlt, Nat.not_le.mpr hlt]
  · have hplace : (w - base) / 64 = (w - (base + 64)) / 64 + 1 := by omega
    have hbit : (w - base) % 64 = (w - (base + 64)) % 64 := by omega
    have hle : base ≤ w := by omega
    have hle' : base + 64 ≤ w := by omega
    simp [hplace, hbit, hlt, hle, hle']

theorem contains_pad_front : (WordSet.mk base (List.replicate k 0 ++ words)).contains w = true ↔
    (WordSet.mk (base + 64 * k) words).contains w = true := by
  induction k generalizing base with
  | zero => rfl
  | succ k ih =>
    have hbase : base + 64 * (k + 1) = base + 64 + 64 * k := by omega
    rw [List.replicate_succ, List.cons_append, contains_cons_iff, ih, hbase]
    simp

theorem contains_pad_back : (WordSet.mk base (words ++ List.replicate k 0)).contains w = true ↔
    (WordSet.mk base words).contains w = true := by
  induction words generalizing base with
  | nil =>
    have h := @contains_pad_front base k w []
    rw [List.append_nil] at h
    rw [List.nil_append, h]
    exact iff_of_false not_contains_nil not_contains_nil
  | cons word words ih => rw [List.cons_append, contains_cons_iff, ih, contains_cons_iff]

end Contains

section Insertions

theorem exists_set? (hw : s.base ≤ w) (hlt : w < s.base + 64 * s.words.length) :
    ∃ s', s.set? w = some s' ∧ s'.base = s.base ∧ s'.words.length = s.words.length ∧
      ∀ n, s'.contains n = true ↔ n = w ∨ s.contains n = true := by
  have hplace : (w - s.base) / 64 < s.words.length := by omega
  have hset : s.set? w = some ⟨s.base, s.words.modify ((w - s.base) / 64)
      (· ||| BitVec.twoPow 64 ((w - s.base) % 64))⟩ := by
    simp [set?, offset?, hw, hplace]
  refine ⟨_, hset, rfl, by simp, fun n => ?_⟩
  simp only [contains_iff, List.getElem?_modify]
  by_cases hn : s.base ≤ n
  · obtain hnone | ⟨word, hword⟩ := Option.eq_none_or_eq_some s.words[(n - s.base) / 64]?
    · have hne : n ≠ w := by
        rintro rfl
        exact absurd hplace (Nat.not_lt.mpr (List.getElem?_eq_none_iff.mp hnone))
      simp [hnone, hne]
    · have hbit : (n - s.base) % 64 < 64 := Nat.mod_lt _ (by decide)
      by_cases hsame : (w - s.base) / 64 = (n - s.base) / 64
      · have heq : (n - s.base) % 64 = (w - s.base) % 64 ↔ n = w := by omega
        simp [hword, hn, hsame, hbit, heq, or_comm]
      · have hne : n ≠ w := fun heq => hsame (heq ▸ rfl)
        simp [hword, hsame, hne]
  · have hne : n ≠ w := by omega
    simp [hn, hne]

theorem exists_foldlM_set? (hlo : s.base ≤ lo) (hhi : lo + k ≤ s.base + 64 * s.words.length) :
    ∃ s', (List.range' lo k).foldlM set? s = some s' ∧ s'.base = s.base ∧
      s'.words.length = s.words.length ∧
      ∀ n, s'.contains n = true ↔ (lo ≤ n ∧ n < lo + k) ∨ s.contains n = true := by
  induction k generalizing s lo with
  | zero => exact ⟨s, rfl, rfl, rfl, fun n => ⟨Or.inr, fun h => h.resolve_left (by omega)⟩⟩
  | succ k ih =>
    obtain ⟨s₁, hs₁, hbase₁, hlen₁, hmem₁⟩ := exists_set? (s := s) hlo (by omega)
    have hle₁ : s₁.base ≤ lo + 1 := by omega
    obtain ⟨s₂, hs₂, hbase₂, hlen₂, hmem₂⟩ := ih hle₁ (by omega)
    refine ⟨s₂, ?_, hbase₂.trans hbase₁, hlen₂.trans hlen₁, fun n => ?_⟩
    · rw [List.range'_succ, List.foldlM_cons, hs₁]
      exact hs₂
    · rw [hmem₂, hmem₁, ← or_assoc]
      exact or_congr_left (by omega)

/-- Making room at the front moves neither a member nor the end, and goes no further than to the
word of the new weight. -/
structure Fronted (s : WordSet) (lo : Nat) (s₁ : WordSet) : Prop where
  aligned : s₁.base % 64 = 0
  le : s₁.base ≤ lo
  fits : s₁.base + 64 * s₁.words.length ≤ 2 ^ 32
  contains (n : Nat) : s₁.contains n = true ↔ s.contains n = true
  start : lo < s₁.base + 64 ∨ s.words ≠ [] ∧ s₁.base = s.base
  stop : s₁.words = [] ∨
    s.words ≠ [] ∧ s₁.base + 64 * s₁.words.length = s.base + 64 * s.words.length

theorem fronted_reserveFront (h : s.Canonical) (hlo : lo < 2 ^ 32) :
    Fronted s lo (s.reserveFront lo) := by
  have haligned := h.aligned
  have hfits := h.fits
  obtain ⟨base, words⟩ := s
  simp only at haligned hfits
  have hfirst : lo / 64 * 64 % 64 = 0 := by omega
  have hle : lo / 64 * 64 ≤ lo := by omega
  have hlast : lo < lo / 64 * 64 + 64 := by omega
  by_cases hnil : words = []
  · subst hnil
    have heq : (WordSet.mk base []).reserveFront lo = ⟨lo / 64 * 64, []⟩ := rfl
    rw [heq]
    refine ⟨hfirst, hle, ?_, fun n => ?_, .inl hlast, .inl rfl⟩
    · exact Nat.le_of_lt (Nat.lt_of_le_of_lt hle hlo)
    · exact iff_of_false not_contains_nil not_contains_nil
  · by_cases hlt : lo / 64 * 64 < base
    · have heq : (WordSet.mk base words).reserveFront lo =
          ⟨lo / 64 * 64, List.replicate ((base - lo / 64 * 64) / 64) 0 ++ words⟩ := by
        simp [reserveFront, hnil, hlt]
      have hbase : lo / 64 * 64 + 64 * ((base - lo / 64 * 64) / 64) = base := by omega
      have hend : lo / 64 * 64 + 64 * ((base - lo / 64 * 64) / 64 + words.length) =
          base + 64 * words.length := by omega
      rw [heq]
      refine ⟨hfirst, hle, ?_, fun n => ?_, .inl hlast, .inr ⟨hnil, ?_⟩⟩
      · rw [List.length_append, List.length_replicate, hend]
        exact hfits
      · rw [contains_pad_front, hbase]
      · rw [List.length_append, List.length_replicate, hend]
    · have heq : (WordSet.mk base words).reserveFront lo = ⟨base, words⟩ := by
        simp [reserveFront, hnil, hlt]
      have hbase : base ≤ lo := by omega
      rw [heq]
      exact ⟨haligned, hbase, hfits, fun n => Iff.rfl, .inr ⟨hnil, rfl⟩, .inr ⟨hnil, rfl⟩⟩

/-- There is room for all weights from `lo` to `hi`, with no word more than they need. -/
structure Reserved (s : WordSet) (lo hi : Nat) (s₂ : WordSet) : Prop where
  aligned : s₂.base % 64 = 0
  le : s₂.base ≤ lo
  lt : hi < s₂.base + 64 * s₂.words.length
  fits : s₂.base + 64 * s₂.words.length ≤ 2 ^ 32
  contains (n : Nat) : s₂.contains n = true ↔ s.contains n = true
  start : lo < s₂.base + 64 ∨ s.words ≠ [] ∧ s₂.base = s.base
  stop : s₂.base + 64 * s₂.words.length ≤ hi + 64 ∨
    s.words ≠ [] ∧ s₂.base + 64 * s₂.words.length = s.base + 64 * s.words.length

theorem Fronted.exists_reserveBack? {s₁ : WordSet} (hf : Fronted s lo s₁) (hle : lo ≤ hi)
    (hhi : hi < 2 ^ 32) : ∃ s₂, s₁.reserveBack? hi = some s₂ ∧ Reserved s lo hi s₂ := by
  obtain ⟨haligned, hlo, hfits, hcontains, hstart, hstop⟩ := hf
  have hbase : s₁.base ≤ hi := hlo.trans hle
  have hroom : s₁.reserveBack? hi = some ⟨s₁.base,
      s₁.words ++ List.replicate ((hi - s₁.base) / 64 + 1 - s₁.words.length) 0⟩ := by
    simp [reserveBack?, offset?, hbase]
  refine ⟨_, hroom, haligned, hlo, ?_, ?_, fun n => contains_pad_back.trans (hcontains n), hstart,
    ?_⟩
  all_goals simp only [List.length_append, List.length_replicate]
  · omega
  · omega
  · obtain hnil | ⟨hne, hend⟩ := hstop
    · rw [hnil, List.length_nil]
      omega
    · by_cases hshort : s₁.words.length ≤ (hi - s₁.base) / 64
      · omega
      · exact .inr ⟨hne, by omega⟩

/-- Where the first weight and the last one have been set, or were there before, no word is too
many. -/
theorem Reserved.canonical {s₂ : WordSet} (hr : Reserved s lo hi s₂) (h : s.Canonical)
    (hle : lo ≤ hi) (hbase : s'.base = s₂.base) (hlength : s'.words.length = s₂.words.length)
    (hmem : ∀ n, s'.contains n = true ↔ (lo ≤ n ∧ n ≤ hi) ∨ s.contains n = true) :
    s'.Canonical := by
  obtain ⟨haligned, hlo, hhi, hfits, -, hstart, hstop⟩ := hr
  rw [← hbase] at haligned hlo hstart
  rw [← hbase, ← hlength] at hhi hfits hstop
  refine ⟨haligned, hfits, fun hnil => ?_, fun _ => ?_, fun _ => ?_⟩
  · rw [hnil, List.length_nil] at hhi
    omega
  · obtain hfirst | ⟨hne, hsame⟩ := hstart
    · exact ⟨lo, (hmem lo).mpr (.inl ⟨Nat.le_refl lo, hle⟩), hfirst⟩
    · obtain ⟨w, hw, hlt⟩ := h.first hne
      exact ⟨w, (hmem w).mpr (.inr hw), hsame ▸ hlt⟩
  · obtain hlast | ⟨hne, hsame⟩ := hstop
    · exact ⟨hi, (hmem hi).mpr (.inl ⟨hle, Nat.le_refl hi⟩), hlast⟩
    · obtain ⟨w, hw, hlt⟩ := h.last hne
      exact ⟨w, (hmem w).mpr (.inr hw), hsame ▸ hlt⟩

/-- An insertion succeeds, adds the weights between its bounds, and leaves no word at either end
that no member needs. -/
theorem exists_insertRange? (h : s.Canonical) (lo : Nat) (hhi : hi < 2 ^ 32) :
    ∃ s', s.insertRange? lo hi = some s' ∧ s'.Canonical ∧
      ∀ n, s'.contains n = true ↔ (lo ≤ n ∧ n ≤ hi) ∨ s.contains n = true := by
  by_cases hempty : hi < lo
  · exact ⟨s, if_pos hempty, h, fun n => ⟨Or.inr, fun hn => hn.resolve_left (by omega)⟩⟩
  · have hle : lo ≤ hi := Nat.le_of_not_lt hempty
    obtain ⟨s₂, hs₂, hr⟩ :=
      (fronted_reserveFront h (Nat.lt_of_le_of_lt hle hhi)).exists_reserveBack? hle hhi
    have hlt : lo + (hi + 1 - lo) ≤ s₂.base + 64 * s₂.words.length := by
      have := hr.lt
      omega
    obtain ⟨s₃, hs₃, hbase, hlength, hmem₃⟩ := exists_foldlM_set? hr.le hlt
    have hmem : ∀ n, s₃.contains n = true ↔ (lo ≤ n ∧ n ≤ hi) ∨ s.contains n = true := by
      intro n
      rw [hmem₃, hr.contains]
      exact or_congr_left (by omega)
    refine ⟨s₃, ?_, hr.canonical h hle hbase hlength hmem, hmem⟩
    rw [insertRange?, if_neg hempty, hs₂]
    exact hs₃

theorem canonical_empty : empty.Canonical where
  aligned := rfl
  fits := by decide
  empty _ := rfl
  first h := absurd rfl h
  last h := absurd rfl h

theorem exists_perform? (h : s.Canonical) (i : Insertion) :
    ∃ s', s.perform? i = some s' ∧ s'.Canonical ∧
      ∀ w : UInt32, s'.contains w.toNat = true ↔ i.Adds w ∨ s.contains w.toNat = true := by
  cases i with
  | weight v =>
    obtain ⟨s', hs', hcanonical, hmem⟩ := exists_insertRange? h v.toNat v.toNat_lt
    refine ⟨s', hs', hcanonical, fun w => (hmem w.toNat).trans (or_congr_left ?_)⟩
    rw [Insertion.Adds, ← UInt32.toNat_inj]
    omega
  | range lo hi =>
    obtain ⟨s', hs', hcanonical, hmem⟩ := exists_insertRange? h lo.toNat hi.toNat_lt
    exact ⟨s', hs', hcanonical, fun w => hmem w.toNat⟩

theorem exists_foldlM_perform? (h : s.Canonical) (is : List Insertion) :
    ∃ s', is.foldlM perform? s = some s' ∧ s'.Canonical ∧
      ∀ w : UInt32, s'.contains w.toNat = true ↔ (∃ i ∈ is, i.Adds w) ∨
        s.contains w.toNat = true := by
  induction is generalizing s with
  | nil => exact ⟨s, rfl, h, fun w => by simp⟩
  | cons i is ih =>
    obtain ⟨s₁, hs₁, h₁, hmem₁⟩ := exists_perform? h i
    obtain ⟨s₂, hs₂, h₂, hmem₂⟩ := ih h₁
    refine ⟨s₂, ?_, h₂, fun w => ?_⟩
    · rw [List.foldlM_cons, hs₁]
      exact hs₂
    · rw [hmem₂, hmem₁]
      simp only [List.mem_cons, exists_eq_or_imp]
      exact or_left_comm.trans or_assoc.symm

theorem exists_ofInsertions? (is : List Insertion) :
    ∃ s, ofInsertions? is = some s ∧ s.Canonical ∧
      ∀ w : UInt32, s.contains w.toNat = true ↔ ∃ i ∈ is, i.Adds w := by
  obtain ⟨s, hs, h, hmem⟩ := exists_foldlM_perform? canonical_empty is
  exact ⟨s, hs, h, fun w => (hmem w).trans (or_iff_left not_contains_nil)⟩

example : ofInsertions? [.weight 200, .range 60 70] =
    some ⟨0, [0xf000000000000000, 0x7f, 0, 0x100]⟩ := by decide

end Insertions

section Uniqueness

theorem Canonical.lt (h : s.Canonical) (hn : s.contains n = true) : n < 2 ^ 32 :=
  Nat.lt_of_lt_of_le (lt_of_contains hn) h.fits

theorem Canonical.base_le (h : s.Canonical) (h' : s'.Canonical)
    (hsub : ∀ n, s.contains n = true → s'.contains n = true) (hs : s.words ≠ []) :
    s'.base ≤ s.base := by
  obtain ⟨w, hw, hlt⟩ := h.first hs
  obtain ⟨hle, -⟩ := contains_iff.mp (hsub w hw)
  have := h.aligned
  have := h'.aligned
  omega

theorem Canonical.end_le (h : s.Canonical) (h' : s'.Canonical)
    (hsub : ∀ n, s.contains n = true → s'.contains n = true) (hs : s.words ≠ []) :
    s.base + 64 * s.words.length ≤ s'.base + 64 * s'.words.length := by
  obtain ⟨w, hw, hlt⟩ := h.last hs
  have hlt' := lt_of_contains (hsub w hw)
  have := h.aligned
  have := h'.aligned
  omega

theorem Canonical.words_ne_nil (h : s.Canonical)
    (hsub : ∀ n, s.contains n = true → s'.contains n = true) (hs : s.words ≠ []) :
    s'.words ≠ [] := by
  obtain ⟨w, hw, -⟩ := h.first hs
  obtain ⟨-, word, hword, -⟩ := contains_iff.mp (hsub w hw)
  intro hnil
  simp [hnil] at hword

theorem Canonical.eq_of_contains (h : s.Canonical) (h' : s'.Canonical)
    (heq : ∀ n, s.contains n = true ↔ s'.contains n = true) : s = s' := by
  by_cases hs : s.words = []
  · have hs' : s'.words = [] := by
      by_contra hs'
      exact h'.words_ne_nil (fun n => (heq n).mpr) hs' hs
    have hbase := (h.empty hs).trans (h'.empty hs').symm
    exact congr (congrArg WordSet.mk hbase) (hs.trans hs'.symm)
  · have hs' : s'.words ≠ [] := h.words_ne_nil (fun n => (heq n).mp) hs
    have hbase : s.base = s'.base := Nat.le_antisymm
      (h'.base_le h (fun n => (heq n).mpr) hs') (h.base_le h' (fun n => (heq n).mp) hs)
    have hlength : s.words.length = s'.words.length := by
      have := h.end_le h' (fun n => (heq n).mp) hs
      have := h'.end_le h (fun n => (heq n).mpr) hs'
      omega
    have hwords : s.words = s'.words := by
      refine List.ext_getElem hlength fun i hi hi' => BitVec.eq_of_getLsbD_eq fun j hj => ?_
      have hplace := heq (s.base + 64 * i + j)
      rw [contains_place_iff hj, hbase, contains_place_iff hj] at hplace
      simp only [List.getElem?_eq_getElem hi, List.getElem?_eq_getElem hi', Option.some.injEq,
        exists_eq_left'] at hplace
      exact Bool.eq_iff_iff.mpr hplace
    exact congr (congrArg WordSet.mk hbase) hwords

end Uniqueness

section Bits

theorem testBit_pred {x : Nat} (hk : x.testBit k = true) (hlow : ∀ i < k, x.testBit i = false) :
    (x - 1).testBit j = if j < k then true else if j = k then false else x.testBit j := by
  have hmod : x % 2 ^ (k + 1) = 2 ^ k := Nat.eq_of_testBit_eq fun i => by
    rw [Nat.testBit_mod_two_pow, Nat.testBit_two_pow]
    obtain hlt | rfl | hgt := Nat.lt_trichotomy i k
    · simp [hlow i hlt, hlt.ne']
    · simp [hk]
    · simp [Nat.not_lt.mpr hgt, hgt.ne]
  have hpos : 0 < 2 ^ k := Nat.two_pow_pos k
  have hx : x - 1 = 2 ^ (k + 1) * (x / 2 ^ (k + 1)) + (2 ^ k - 1) := by
    have := Nat.div_add_mod x (2 ^ (k + 1))
    omega
  have hlt : 2 ^ k - 1 < 2 ^ (k + 1) := by
    have := Nat.pow_lt_pow_succ (n := k) Nat.one_lt_two
    omega
  rw [hx, Nat.testBit_two_pow_mul_add _ hlt, Nat.testBit_two_pow_sub_one]
  obtain hlt | rfl | hgt := Nat.lt_trichotomy j k
  · simp [hlt, Nat.lt_succ_of_lt hlt]
  · simp
  · rw [if_neg (Nat.not_lt.mpr hgt), if_neg hgt.not_gt, if_neg hgt.ne', Nat.testBit_div_two_pow,
      Nat.sub_add_cancel hgt]

theorem getLsbD_and_pred (h : word ≠ 0) : (word &&& (word - 1)).getLsbD j = true ↔
    word.ctz.toNat < j ∧ word.getLsbD j = true := by
  have hone : (1 : BitVec 64) ≤ word := by
    rw [BitVec.le_def]
    exact Nat.pos_of_ne_zero fun hzero => h (BitVec.eq_of_toNat_eq hzero)
  have hk : word.toNat.testBit word.ctz.toNat = true :=
    (BitVec.testBit_toNat word).trans (BitVec.getLsbD_true_ctz_of_ne_zero h)
  have hlow : ∀ i < word.ctz.toNat, word.toNat.testBit i = false := fun i hi =>
    (BitVec.testBit_toNat word).trans (BitVec.getLsbD_false_of_lt_ctz hi)
  have hpred : (word - 1).getLsbD j = if j < word.ctz.toNat then true
      else if j = word.ctz.toNat then false else word.getLsbD j := by
    rw [← BitVec.testBit_toNat, ← BitVec.testBit_toNat, BitVec.toNat_sub_of_le hone]
    exact testBit_pred hk hlow
  rw [BitVec.getLsbD_and, hpred, Bool.and_eq_true]
  obtain hlt | rfl | hgt := Nat.lt_trichotomy j word.ctz.toNat
  · simp [BitVec.getLsbD_false_of_lt_ctz hlt]
  · simp
  · simp [hgt, hgt.not_gt, hgt.ne']

theorem mem_bits_iff : j ∈ bits word ↔ word.getLsbD j = true := by
  fun_induction bits word with
  | case1 => simp
  | case2 word hne ih =>
    rw [List.mem_cons, ih, getLsbD_and_pred hne]
    constructor
    · rintro (rfl | ⟨-, hj⟩)
      · exact BitVec.getLsbD_true_ctz_of_ne_zero hne
      · exact hj
    · intro hj
      obtain hlt | heq | hgt := Nat.lt_trichotomy j word.ctz.toNat
      · rw [BitVec.getLsbD_false_of_lt_ctz hlt] at hj
        cases hj
      · exact .inl heq
      · exact .inr ⟨hgt, hj⟩

theorem pairwise_bits (word : BitVec 64) : (bits word).Pairwise (· < ·) := by
  fun_induction bits word with
  | case1 => exact List.Pairwise.nil
  | case2 word hne ih =>
    refine List.pairwise_cons.mpr ⟨fun j hj => ?_, ih⟩
    exact ((getLsbD_and_pred hne).mp (mem_bits_iff.mp hj)).1

end Bits

section Ranges

theorem mapM_narrow? {ns : List Nat} (h : ∀ n ∈ ns, n < 2 ^ 32) : ns.mapM narrow? = some ns := by
  induction ns with
  | nil => rfl
  | cons n ns ih =>
    have hn : narrow? n = some n := if_pos (h n List.mem_cons_self)
    rw [List.mapM_cons, hn, ih fun m hm => h m (List.mem_cons_of_mem n hm)]
    rfl

theorem mem_map_bits_iff : w ∈ (bits word).map (base + ·) ↔
    base ≤ w ∧ w < base + 64 ∧ word.getLsbD (w - base) = true := by
  rw [List.mem_map]
  constructor
  · rintro ⟨j, hj, rfl⟩
    have hbit := mem_bits_iff.mp hj
    have := BitVec.lt_of_getLsbD hbit
    refine ⟨Nat.le_add_right _ _, by omega, ?_⟩
    rwa [Nat.add_sub_cancel_left]
  · rintro ⟨hle, -, hbit⟩
    exact ⟨w - base, mem_bits_iff.mpr hbit, Nat.add_sub_cancel' hle⟩

theorem exists_weightsFrom? (hfits : base + (i + words.length) * 64 ≤ 2 ^ 32) :
    ∃ ws, weightsFrom? base i words = some ws ∧ ws.Pairwise (· < ·) ∧
      ∀ w, w ∈ ws ↔ (WordSet.mk (base + i * 64) words).contains w = true := by
  induction words generalizing i with
  | nil =>
    refine ⟨[], rfl, List.Pairwise.nil, fun w => ?_⟩
    exact iff_of_false List.not_mem_nil not_contains_nil
  | cons word words ih =>
    rw [List.length_cons] at hfits
    have hbase : base + (i + 1) * 64 = base + i * 64 + 64 := by omega
    obtain ⟨ws, hws, hsorted, hmem⟩ := ih (i := i + 1) (by omega)
    rw [hbase] at hmem
    have hnarrow : ((bits word).map (base + i * 64 + ·)).mapM narrow? =
        some ((bits word).map (base + i * 64 + ·)) := mapM_narrow? fun w hw => by
      have := (mem_map_bits_iff.mp hw).2.1
      omega
    refine ⟨(bits word).map (base + i * 64 + ·) ++ ws, ?_, ?_, fun w => ?_⟩
    · rw [weightsFrom?, hnarrow, hws]
      rfl
    · refine List.pairwise_append.mpr ⟨?_, hsorted, fun v hv w hw => ?_⟩
      · exact (pairwise_bits word).map _ fun j k hlt => Nat.add_lt_add_left hlt _
      · have hlt := (mem_map_bits_iff.mp hv).2.1
        have hle := (contains_iff.mp ((hmem w).mp hw)).1
        exact Nat.lt_of_lt_of_le hlt hle
    · rw [List.mem_append, mem_map_bits_iff, hmem, contains_cons_iff]

theorem exists_extend? (h : RangeSet.Separated rs.reverse) (hlt : ∀ r ∈ rs, r.hi < w)
    (hw : w < 2 ^ 32) : ∃ rs', extend? rs w = some rs' ∧ RangeSet.Separated rs'.reverse ∧
      (∀ r ∈ rs', r.hi ≤ w) ∧ ∀ n, rs'.any (·.contains n) = true ↔
        n = w ∨ rs.any (·.contains n) = true := by
  simp only [RangeSet.separated_iff, List.mem_reverse, List.pairwise_reverse] at h ⊢
  cases rs with
  | nil =>
    refine ⟨[⟨w, w⟩], rfl, by simp, by simp, fun n => ?_⟩
    simp [ClosedRange.contains_iff, Nat.le_antisymm_iff, and_comm]
  | cons r rs =>
    rw [List.forall_mem_cons, List.pairwise_cons] at h
    obtain ⟨⟨hle, hall⟩, hgap, hpairs⟩ := h
    rw [List.forall_mem_cons] at hlt
    have hbehind : narrow? (r.hi + 1) = some (r.hi + 1) := if_pos (Nat.lt_of_le_of_lt hlt.1 hw)
    have hext : extend? (r :: rs) w =
        some (if r.hi + 1 = w then ⟨r.lo, w⟩ :: rs else ⟨w, w⟩ :: r :: rs) := by
      rw [extend?, hbehind]
      rfl
    have hall' : ∀ s ∈ rs, s.hi ≤ w := fun s hs => (hlt.2 s hs).le
    by_cases heq : r.hi + 1 = w
    · rw [if_pos heq] at hext
      have hlo : r.lo ≤ w := hle.trans hlt.1.le
      refine ⟨_, hext, ⟨?_, ?_⟩, ?_, fun n => ?_⟩
      · exact List.forall_mem_cons.mpr ⟨hlo, hall⟩
      · exact List.pairwise_cons.mpr ⟨hgap, hpairs⟩
      · exact List.forall_mem_cons.mpr ⟨Nat.le_refl w, hall'⟩
      · rw [List.any_cons, List.any_cons, Bool.or_eq_true, Bool.or_eq_true,
          ClosedRange.contains_iff, ClosedRange.contains_iff, ← or_assoc]
        dsimp only
        exact or_congr_left (by omega)
    · rw [if_neg heq] at hext
      have hfirst : r.hi + 1 < w := Nat.lt_of_le_of_ne hlt.1 heq
      have hgap' : ∀ s ∈ rs, s.hi + 1 < w := fun s hs => by
        have := hgap s hs
        omega
      refine ⟨_, hext, ⟨?_, ?_⟩, ?_, fun n => ?_⟩
      · rw [List.forall_mem_cons, List.forall_mem_cons]
        exact ⟨Nat.le_refl w, hle, hall⟩
      · rw [List.pairwise_cons, List.pairwise_cons, List.forall_mem_cons]
        exact ⟨⟨hfirst, hgap'⟩, hgap, hpairs⟩
      · rw [List.forall_mem_cons, List.forall_mem_cons]
        exact ⟨Nat.le_refl w, hlt.1.le, hall'⟩
      · rw [List.any_cons, Bool.or_eq_true, ClosedRange.contains_iff]
        dsimp only
        exact or_congr_left (by omega)

theorem exists_foldlM_extend? {ws : List Nat} (hsorted : ws.Pairwise (· < ·))
    (hws : ∀ w ∈ ws, w < 2 ^ 32) (h : RangeSet.Separated rs.reverse)
    (hlt : ∀ r ∈ rs, ∀ w ∈ ws, r.hi < w) : ∃ rs', ws.foldlM extend? rs = some rs' ∧
      RangeSet.Separated rs'.reverse ∧ ∀ n, rs'.any (·.contains n) = true ↔
        n ∈ ws ∨ rs.any (·.contains n) = true := by
  induction ws generalizing rs with
  | nil => exact ⟨rs, rfl, h, fun n => by simp⟩
  | cons w ws ih =>
    obtain ⟨hfirst, hsorted⟩ := List.pairwise_cons.mp hsorted
    obtain ⟨hw, hws⟩ := List.forall_mem_cons.mp hws
    obtain ⟨rs₁, hrs₁, h₁, hle₁, hmem₁⟩ :=
      exists_extend? h (fun r hr => hlt r hr w List.mem_cons_self) hw
    obtain ⟨rs₂, hrs₂, h₂, hmem₂⟩ := ih hsorted hws h₁ fun r hr v hv =>
      Nat.lt_of_le_of_lt (hle₁ r hr) (hfirst v hv)
    refine ⟨rs₂, ?_, h₂, fun n => ?_⟩
    · rw [List.foldlM_cons, hrs₁]
      exact hrs₂
    · rw [hmem₂, hmem₁, List.mem_cons]
      exact or_left_comm.trans or_assoc.symm

theorem Canonical.exists_ranges? (h : s.Canonical) :
    ∃ rs, s.ranges? = some rs ∧ RangeSet.Separated rs ∧
      ∀ n, rs.any (·.contains n) = true ↔ s.contains n = true := by
  have hfits : s.base + (0 + s.words.length) * 64 ≤ 2 ^ 32 := by
    have := h.fits
    omega
  obtain ⟨ws, hws, hsorted, hmem⟩ := exists_weightsFrom? hfits
  rw [Nat.zero_mul, Nat.add_zero] at hmem
  have hnone : RangeSet.Separated ([] : List ClosedRange).reverse := trivial
  obtain ⟨rs, hrs, hseparated, hranges⟩ := exists_foldlM_extend? hsorted
    (fun w hw => h.lt ((hmem w).mp hw)) hnone (by simp)
  refine ⟨rs.reverse, ?_, hseparated, fun n => ?_⟩
  · rw [ranges?, hws]
    simp [hrs]
  · rw [List.any_reverse, hranges, ← hmem]
    simp

end Ranges

end WordSet

namespace WeightSet

variable {s : WeightSet}

theorem containsWeight_perform (i : Insertion) (w : UInt32) :
    (s.perform i).containsWeight w.toNat = true ↔ i.Adds w ∨ s.containsWeight w.toNat = true := by
  cases i with
  | weight v =>
    refine RangeSet.contains_insertRange.trans (or_congr_left ?_)
    rw [Insertion.Adds, ← UInt32.toNat_inj]
    omega
  | range lo hi => exact RangeSet.contains_insertRange

theorem containsWeight_foldl_perform (is : List Insertion) (w : UInt32) :
    (is.foldl perform s).containsWeight w.toNat = true ↔
      (∃ i ∈ is, i.Adds w) ∨ s.containsWeight w.toNat = true := by
  induction is generalizing s with
  | nil => simp
  | cons i is ih =>
    rw [List.foldl_cons, ih, containsWeight_perform]
    simp only [List.mem_cons, exists_eq_or_imp]
    exact or_left_comm.trans or_assoc.symm

theorem containsWeight_ofInsertions (is : List Insertion) (w : UInt32) :
    (ofInsertions is).containsWeight w.toNat = true ↔ ∃ i ∈ is, i.Adds w := by
  rw [ofInsertions, containsWeight_foldl_perform]
  exact or_iff_left (by simp [empty, containsWeight])

theorem foldl_perform (is : List Insertion) :
    is.foldl perform s = { s with members := (is.foldl perform s).members } := by
  induction is generalizing s with
  | nil => rfl
  | cons i is ih =>
    rw [List.foldl_cons]
    cases i <;> exact ih

theorem lt_of_containsWeight_foldl_perform (is : List Insertion) {n : Nat}
    (h : ∀ n, s.containsWeight n = true → n < 2 ^ 32)
    (hn : (is.foldl perform s).containsWeight n = true) : n < 2 ^ 32 := by
  induction is generalizing s with
  | nil => exact h n hn
  | cons i is ih =>
    refine ih (fun m hm => ?_) hn
    cases i with
    | weight v =>
      obtain ⟨-, hle⟩ | hm := RangeSet.contains_insertRange.mp hm
      · exact Nat.lt_of_le_of_lt hle v.toNat_lt
      · exact h m hm
    | range lo hi =>
      obtain ⟨-, hle⟩ | hm := RangeSet.contains_insertRange.mp hm
      · exact Nat.lt_of_le_of_lt hle hi.toNat_lt
      · exact h m hm

theorem lt_of_containsWeight_ofInsertions {is : List Insertion} {n : Nat}
    (hn : (ofInsertions is).containsWeight n = true) : n < 2 ^ 32 :=
  lt_of_containsWeight_foldl_perform is (fun n h => by simp [containsWeight, empty] at h) hn

end WeightSet

variable {is is' : List Insertion} {s s' : WordSet}

theorem contains_ofInsertions_iff (hs : s.Canonical)
    (hmem : ∀ w : UInt32, s.contains w.toNat = true ↔ ∃ i ∈ is, i.Adds w) (n : Nat) :
    s.contains n = true ↔ (WeightSet.ofInsertions is).containsWeight n = true := by
  by_cases hn : n < 2 ^ 32
  · have hw : (UInt32.ofNatLT n hn).toNat = n := UInt32.toNat_ofNatLT
    rw [← hw, hmem, WeightSet.containsWeight_ofInsertions]
  · exact iff_of_false (fun h => hn (hs.lt h))
      (fun h => hn (WeightSet.lt_of_containsWeight_ofInsertions h))

theorem ofInsertions_eq_of_contains
    (h : ∀ n, (WeightSet.ofInsertions is).containsWeight n = true ↔
      (WeightSet.ofInsertions is').containsWeight n = true) :
    WeightSet.ofInsertions is = WeightSet.ofInsertions is' := by
  have hmembers : (WeightSet.ofInsertions is).members = (WeightSet.ofInsertions is').members :=
    RangeSet.eq_of_contains h
  rw [WeightSet.ofInsertions, WeightSet.ofInsertions] at hmembers ⊢
  rw [WeightSet.foldl_perform is, WeightSet.foldl_perform is', hmembers]

/-- Any sequence of insertions, in any order and with any bounds, succeeds in the words and makes a
canonical set: its members are the weights that were added, its ranges ascend with a gap between
any two of them and are found without a number of more than 32 bits, and another sequence that adds
the same weights makes the same words. The set that is kept as ranges has these ranges. -/
theorem insertions_canonical (is : List Insertion) : ∃ s rs,
    WordSet.ofInsertions? is = some s ∧ s.Canonical ∧
    (∀ w : UInt32, s.contains w.toNat = true ↔ ∃ i ∈ is, i.Adds w) ∧
    s.ranges? = some rs ∧ RangeSet.Separated rs ∧ (∀ r ∈ rs, r.hi < 2 ^ 32) ∧
    (∀ n, rs.any (·.contains n) = true ↔ s.contains n = true) ∧
    (WeightSet.ofInsertions is).members.ranges = rs ∧
    (∀ w : UInt32,
      (WeightSet.ofInsertions is).containsWeight w.toNat = true ↔ ∃ i ∈ is, i.Adds w) ∧
    ∀ is', (∀ w : UInt32, (∃ i ∈ is', i.Adds w) ↔ ∃ i ∈ is, i.Adds w) →
      WordSet.ofInsertions? is' = some s ∧
      WeightSet.ofInsertions is' = WeightSet.ofInsertions is := by
  obtain ⟨s, hs, hcanonical, hmem⟩ := WordSet.exists_ofInsertions? is
  obtain ⟨rs, hrs, hseparated, hranges⟩ := hcanonical.exists_ranges?
  have hkept := contains_ofInsertions_iff hcanonical hmem
  refine ⟨s, rs, hs, hcanonical, hmem, hrs, hseparated, fun r hr => ?_, hranges, ?_,
    WeightSet.containsWeight_ofInsertions is, fun is' hsame => ?_⟩
  · have hle := (RangeSet.separated_iff.mp hseparated).1 r hr
    exact hcanonical.lt ((hranges r.hi).mp
      (RangeSet.any_contains_iff.mpr ⟨r, hr, hle, Nat.le_refl _⟩))
  · exact RangeSet.eq_of_any_contains (RangeSet.separated _) hseparated fun n =>
      (hkept n).symm.trans (hranges n).symm
  · obtain ⟨s', hs', hcanonical', hmem'⟩ := WordSet.exists_ofInsertions? is'
    have hmem'' : ∀ w : UInt32, s'.contains w.toNat = true ↔ ∃ i ∈ is, i.Adds w := fun w =>
      (hmem' w).trans (hsame w)
    have hwords : s' = s := hcanonical'.eq_of_contains hcanonical fun n =>
      (contains_ofInsertions_iff hcanonical' hmem'' n).trans (hkept n).symm
    refine ⟨hwords ▸ hs', ofInsertions_eq_of_contains fun n => ?_⟩
    rw [← contains_ofInsertions_iff hcanonical' hmem', hwords, hkept]

/-- The greatest weight is added first and last, ranges are cut into others that overlap, and one
has no weights. -/
theorem insertions_canonical_reordered : ∃ s,
    WordSet.ofInsertions? [.weight 4294967295, .range 70 3, .range 0 64, .weight 200] = some s ∧
    s.ranges? = some [⟨0, 64⟩, ⟨200, 200⟩, ⟨4294967295, 4294967295⟩] ∧
    WordSet.ofInsertions? [.range 30 64, .weight 200, .range 0 40, .weight 4294967295]
      = some s := by
  obtain ⟨s, rs, hs, -, -, hrs, -, -, -, hkept, -, hsame⟩ := insertions_canonical
    [.weight 4294967295, .range 70 3, .range 0 64, .weight 200]
  refine ⟨s, hs, ?_, (hsame _ fun w => ?_).1⟩
  · rw [hrs, ← hkept]
    rfl
  · simp only [List.mem_cons, exists_eq_or_imp, List.not_mem_nil, or_false, exists_eq_left,
      Insertion.Adds, UInt32.le_iff_toNat_le, ← UInt32.toNat_inj, UInt32.reduceToNat]
    omega

end PosixRegex
