import PosixRegex.Pattern.BracketSet
import PosixRegex.Proofs.Pattern.Derivation

namespace PosixRegex

def Bracket.Ascending (b : Bracket) : Prop :=
  ∀ lo hi, BracketItem.range lo hi ∈ b.items → lo.toNat ≤ hi.toNat

namespace BracketItem

variable {o : Options} {l : Locale} {c x : Char}

theorem exists_charWeights_iff :
    (∃ r ∈ charWeights o l x, r.contains c.toNat = true) ↔
      c = x ∨ o.ignoreCase = true ∧ l.opposite? x = some c := by
  have hsingle : ∀ y : Char, (ClosedRange.mk (Locale.uniqueWeight y)
      (Locale.uniqueWeight y)).contains c.toNat = true ↔ c = y := by
    intro y
    rw [ClosedRange.contains_iff]
    simp only [Locale.uniqueWeight]
    constructor
    · rintro ⟨h₁, h₂⟩
      exact Char.toNat_inj.mp (Nat.le_antisymm h₂ h₁)
    · rintro rfl
      exact ⟨Nat.le_refl _, Nat.le_refl _⟩
  simp only [charWeights, List.exists_mem_cons_iff, hsingle]
  refine or_congr_right ?_
  cases o.ignoreCase with
  | false => simp
  | true =>
    cases l.opposite? x with
    | none => simp
    | some y =>
      simp only [if_true, Option.toList_some, List.map_cons, List.map_nil,
        List.exists_mem_cons_iff, hsingle, List.not_mem_nil, false_and, exists_false, or_false,
        true_and, Option.some.injEq]
      exact eq_comm

theorem exists_oppositeWeights_iff {lo hi : Nat} :
    (∃ r ∈ oppositeWeights l lo hi, r.contains c.toNat = true) ↔
      ∃ x : Char, lo ≤ x.toNat ∧ x.toNat ≤ hi ∧ l.opposite? x = some c := by
  constructor
  · rintro ⟨r, hr, hc⟩
    obtain ⟨w, hw, hmap⟩ := List.mem_filterMap.mp hr
    obtain ⟨y, hy, rfl⟩ := Option.map_eq_some_iff.mp hmap
    obtain ⟨x, hx, hxy⟩ := Option.bind_eq_some_iff.mp hy
    rw [List.mem_range'_1] at hw
    rw [ClosedRange.contains_iff] at hc
    obtain rfl : c = y := Char.toNat_inj.mp (Nat.le_antisymm hc.2 hc.1)
    unfold Locale.charOfWeight? at hx
    split at hx
    · rename_i hvalid
      have htoNat : (Char.ofNat w).toNat = w := by
        rw [Char.ofNat, dif_pos hvalid]
        rfl
      obtain rfl := Option.some.inj hx
      exact ⟨_, by omega, by omega, hxy⟩
    · simp at hx
  · rintro ⟨x, hlo, hhi, hx⟩
    refine ⟨⟨c.toNat, c.toNat⟩, List.mem_filterMap.mpr ⟨x.toNat, ?_, ?_⟩, ?_⟩
    · rw [List.mem_range'_1]
      omega
    · have hweight : Locale.charOfWeight? x.toNat = some x := by
        have hvalid : x.toNat.isValidChar := x.valid
        rw [Locale.charOfWeight?, if_pos hvalid, Char.ofNat_toNat]
      rw [hweight, Option.bind_some, hx]
      rfl
    · exact ClosedRange.contains_iff.mpr ⟨Nat.le_refl _, Nat.le_refl _⟩

theorem lists_iff {i : BracketItem} :
    i.Lists o l c ↔ (∃ r ∈ i.weights o l, r.contains c.toNat = true) ∨
      ∃ k ∈ i.classes o, l.isClass k c = true := by
  cases i with
  | char x => simpa [Lists, weights, classes] using exists_charWeights_iff.symm
  | range lo hi =>
    have hrange : (ClosedRange.mk (Locale.uniqueWeight lo)
        (Locale.uniqueWeight hi)).contains c.toNat = true ↔
        lo.toNat ≤ c.toNat ∧ c.toNat ≤ hi.toNat := ClosedRange.contains_iff
    simp only [Lists, weights, classes, List.exists_mem_cons_iff, hrange, List.not_mem_nil,
      false_and, exists_false, or_false]
    cases o.ignoreCase with
    | false => simp
    | true => simp [exists_oppositeWeights_iff, Locale.uniqueWeight]
  | cls k =>
    simp only [Lists, weights, classes, List.not_mem_nil, false_and, exists_false, false_or,
      List.exists_mem_cons_iff]
    cases o.ignoreCase with
    | false => simp
    | true => cases k.opposite? <;> simp
  | equivalence x =>
    simp only [Lists, weights, classes, List.not_mem_nil, false_and, exists_false, or_false,
      List.mem_flatMap]
    constructor
    · rintro ⟨y, hy, h⟩
      obtain ⟨r, hr, hc⟩ := exists_charWeights_iff.mpr h
      exact ⟨r, ⟨y, hy, hr⟩, hc⟩
    · rintro ⟨r, ⟨y, hy, hr⟩, hc⟩
      exact ⟨y, hy, exists_charWeights_iff.mp ⟨r, hr, hc⟩⟩

end BracketItem

namespace Bracket

variable {b : Bracket} {o : Options} {l : Locale} {c : Char}

theorem exists_lists_iff :
    (∃ i ∈ b.items, i.Lists o l c) ↔ (∃ r ∈ b.weights o l, r.contains c.toNat = true) ∨
      ∃ k ∈ b.classes o, l.isClass k c = true := by
  simp only [weights, classes, List.mem_flatMap, BracketItem.lists_iff]
  constructor
  · rintro ⟨i, hi, ⟨r, hr, hc⟩ | ⟨k, hk, hc⟩⟩
    · exact Or.inl ⟨r, ⟨i, hi, hr⟩, hc⟩
    · exact Or.inr ⟨k, ⟨i, hi, hk⟩, hc⟩
  · rintro (⟨r, ⟨i, hi, hr⟩, hc⟩ | ⟨k, ⟨i, hi, hk⟩, hc⟩)
    · exact ⟨i, hi, Or.inl ⟨r, hr, hc⟩⟩
    · exact ⟨i, hi, Or.inr ⟨k, hk, hc⟩⟩

theorem containsWeight_foldl (rs : List ClosedRange) (s : WeightSet) (n : Nat) :
    (rs.foldl (fun s r => s.insertRange r.lo r.hi) s).containsWeight n = true ↔
      (∃ r ∈ rs, r.contains n = true) ∨ s.containsWeight n = true := by
  induction rs generalizing s with
  | nil => simp
  | cons r rs ih =>
    rw [List.foldl_cons, ih, List.exists_mem_cons_iff, ClosedRange.contains_iff]
    have hr : (s.insertRange r.lo r.hi).containsWeight n = true ↔
        (r.lo ≤ n ∧ n ≤ r.hi) ∨ s.containsWeight n = true := RangeSet.contains_insertRange
    rw [hr, or_left_comm, or_assoc]

theorem classes_foldl_insertRange (rs : List ClosedRange) (s : WeightSet) :
    (rs.foldl (fun s r => s.insertRange r.lo r.hi) s).classes = s.classes := by
  induction rs generalizing s with
  | nil => rfl
  | cons r rs ih => rw [List.foldl_cons, ih]; rfl

theorem containsWeight_foldl_addClass (ks : List CharClass) (s : WeightSet) (n : Nat) :
    (ks.foldl WeightSet.addClass s).containsWeight n = s.containsWeight n := by
  induction ks generalizing s with
  | nil => rfl
  | cons k ks ih =>
    rw [List.foldl_cons, ih, WeightSet.addClass]
    split <;> rfl

theorem mem_classes_foldl_addClass (ks : List CharClass) (s : WeightSet) (k : CharClass) :
    k ∈ (ks.foldl WeightSet.addClass s).classes ↔ k ∈ ks ∨ k ∈ s.classes := by
  induction ks generalizing s with
  | nil => simp
  | cons k' ks ih =>
    have hadd : k ∈ (s.addClass k').classes ↔ k = k' ∨ k ∈ s.classes := by
      unfold WeightSet.addClass
      split
      · rename_i h
        rw [List.contains_iff_mem] at h
        constructor
        · exact Or.inr
        · rintro (rfl | h')
          · exact h
          · exact h'
      · rw [List.mem_append, List.mem_singleton, or_comm]
    rw [List.foldl_cons, ih, hadd, List.mem_cons, or_assoc, or_left_comm]

def listed (b : Bracket) (o : Options) (l : Locale) : WeightSet :=
  (b.classes o).foldl WeightSet.addClass
    ((b.weights o l).foldl (fun s r => s.insertRange r.lo r.hi) WeightSet.empty)

theorem negated_listed (b : Bracket) (o : Options) (l : Locale) :
    (b.listed o l).negated = false := by
  refine List.foldlRecOn (motive := fun s : WeightSet => s.negated = false) _ _ ?_
    fun s hs k _ => ?_
  · exact List.foldlRecOn (motive := fun s : WeightSet => s.negated = false) _ _ rfl
      fun s hs r _ => hs
  · unfold WeightSet.addClass
    split <;> exact hs

theorem lists_listed_iff :
    (b.listed o l).lists l c = true ↔ ∃ i ∈ b.items, i.Lists o l c := by
  have hweight : (b.listed o l).containsWeight c.toNat = true ↔
      ∃ r ∈ b.weights o l, r.contains c.toNat = true := by
    rw [listed, containsWeight_foldl_addClass, containsWeight_foldl]
    simp [WeightSet.empty, WeightSet.containsWeight]
  rw [exists_lists_iff, WeightSet.lists, Bool.or_eq_true, Locale.uniqueWeight, hweight,
    List.any_eq_true]
  simp [listed, mem_classes_foldl_addClass, classes_foldl_insertRange, WeightSet.empty]

theorem contains_weightSet : (b.weightSet o l).contains l c = true ↔ b.Admits o l c := by
  unfold Admits
  cases hb : b.negated with
  | false =>
    have hset : b.weightSet o l = b.listed o l := by
      rw [weightSet, hb, if_neg Bool.false_ne_true]
      rfl
    rw [hset, WeightSet.contains, negated_listed, if_neg Bool.false_ne_true,
      if_neg Bool.false_ne_true, lists_listed_iff]
  | true =>
    have hset : b.weightSet o l = (b.listed o l).negate o.newlineSensitive := by
      rw [weightSet, hb, if_pos rfl]
      rfl
    have hlists : ((b.listed o l).negate o.newlineSensitive).lists l c =
        (b.listed o l).lists l c := rfl
    have hnegated : ((b.listed o l).negate o.newlineSensitive).negated = true := rfl
    have hnewline : ((b.listed o l).negate o.newlineSensitive).excludesNewline =
        o.newlineSensitive := rfl
    rw [hset, WeightSet.contains, if_pos hnegated, if_pos rfl, hlists, hnewline,
      Bool.and_eq_true, Bool.not_eq_true', Bool.eq_false_iff, ne_eq, lists_listed_iff]
    refine and_congr (by simp) ?_
    cases o.newlineSensitive <;> simp

theorem contains_foldl_insertRange (rs : List ClosedRange) (s : ByteSet) (n : UInt8)
    (hrs : ∀ r ∈ rs, r.lo ≤ 0xFF ∧ r.hi ≤ 0xFF) :
    (rs.foldl (fun s r => s.insertRange (UInt8.ofNat r.lo) (UInt8.ofNat r.hi)) s).contains n =
      true ↔ (∃ r ∈ rs, r.contains n.toNat = true) ∨ s.contains n = true := by
  induction rs generalizing s with
  | nil => simp
  | cons r rs ih =>
    have hr := hrs r (by simp)
    have hbyte : ∀ k : Nat, k ≤ 0xFF → (UInt8.ofNat k).toNat = k :=
      fun k hk => UInt8.toNat_ofNat_of_lt' (Nat.lt_succ_of_le hk)
    have hlo : (UInt8.ofNat r.lo ≤ n) ↔ r.lo ≤ n.toNat := by
      rw [UInt8.le_iff_toNat_le, hbyte _ hr.1]
    have hhi : (n ≤ UInt8.ofNat r.hi) ↔ n.toNat ≤ r.hi := by
      rw [UInt8.le_iff_toNat_le, hbyte _ hr.2]
    rw [List.foldl_cons, ih _ fun r' h => hrs r' (by simp [h]), ByteSet.contains_insertRange,
      List.exists_mem_cons_iff, ClosedRange.contains_iff]
    simp only [Bool.or_eq_true, Bool.and_eq_true, decide_eq_true_eq, hlo, hhi]
    rw [or_comm, or_assoc, or_comm, or_assoc, or_comm]

theorem contains_foldl_union {α : Type} (ks : List α) (f : α → ByteSet) (s : ByteSet) (n : UInt8) :
    (ks.foldl (fun s k => s.union (f k)) s).contains n = true ↔
      (∃ k ∈ ks, (f k).contains n = true) ∨ s.contains n = true := by
  induction ks generalizing s with
  | nil => simp
  | cons k ks ih =>
    rw [List.foldl_cons, ih, ByteSet.contains_union, Bool.or_eq_true, List.exists_mem_cons_iff,
      or_comm, or_assoc, or_comm, or_assoc, or_comm]

end Bracket

namespace CharClass

variable {c : Char}

theorem toNat_lt_of_isDigit (h : c.isDigit = true) : c.toNat < 128 := by
  simp only [Char.isDigit, Bool.and_eq_true, decide_eq_true_eq, UInt32.le_iff_toNat_le] at h
  exact Nat.lt_of_le_of_lt h.2 (by decide)

theorem toNat_lt_of_isAlpha (h : c.isAlpha = true) : c.toNat < 128 := by
  rcases Bool.or_eq_true_iff.mp h with h | h
  · have hupper : 'A'.val ≤ c.val ∧ c.val ≤ 'Z'.val := of_decide_eq_true h
    exact Nat.lt_of_le_of_lt (UInt32.le_iff_toNat_le.mp hupper.2) (by decide)
  · have hlower : c.val ≤ 'z'.val := of_decide_eq_true (Bool.and_eq_true_iff.mp h).2
    exact Nat.lt_of_le_of_lt (UInt32.le_iff_toNat_le.mp hlower) (by decide)

theorem toNat_lt_of_isAsciiGraphic (h : isAsciiGraphic c = true) : c.toNat < 128 := by
  simp only [isAsciiGraphic, Bool.and_eq_true, decide_eq_true_eq] at h
  omega

theorem toNat_lt_of_holdsPosix {k : CharClass} (h : k.holdsPosix c = true) : c.toNat < 128 := by
  have hle : ∀ d : Char, d.toNat < 128 → c ≤ d → c.toNat < 128 :=
    fun d hd hc => Nat.lt_of_le_of_lt hc hd
  cases k with
  | alnum =>
    rw [holdsPosix, Char.isAlphanum, Bool.or_eq_true] at h
    exact h.elim toNat_lt_of_isAlpha toNat_lt_of_isDigit
  | alpha => exact toNat_lt_of_isAlpha h
  | lower => exact toNat_lt_of_isAlpha (Bool.or_eq_true_iff.mpr (Or.inr h))
  | upper => exact toNat_lt_of_isAlpha (Bool.or_eq_true_iff.mpr (Or.inl h))
  | digit => exact toNat_lt_of_isDigit h
  | graph => exact toNat_lt_of_isAsciiGraphic h
  | punct =>
    rw [holdsPosix, isAsciiPunct, Bool.and_eq_true] at h
    exact toNat_lt_of_isAsciiGraphic h.1
  | blank =>
    simp only [holdsPosix, Bool.or_eq_true, beq_iff_eq] at h
    rcases h with rfl | rfl <;> decide
  | cntrl =>
    simp only [holdsPosix, Bool.or_eq_true, decide_eq_true_eq, beq_iff_eq] at h
    omega
  | print =>
    simp only [holdsPosix, Bool.or_eq_true, beq_iff_eq] at h
    rcases h with h | rfl
    · exact toNat_lt_of_isAsciiGraphic h
    · decide
  | space =>
    simp only [holdsPosix, Bool.or_eq_true, Bool.and_eq_true, decide_eq_true_eq, beq_iff_eq] at h
    rcases h with rfl | h
    · decide
    · omega
  | xdigit =>
    simp only [holdsPosix, isHexDigit, Bool.or_eq_true, Bool.and_eq_true, decide_eq_true_eq] at h
    rcases h with (h | ⟨-, h⟩) | ⟨-, h⟩
    · exact toNat_lt_of_isDigit h
    · exact hle 'f' (by decide) h
    · exact hle 'F' (by decide) h

end CharClass

namespace Bracket

variable {b : Bracket} {o : Options} {l : Locale} {c : Char}

theorem le_of_mem_weights (hb : b.Ascending) {r : ClosedRange} (hr : r ∈ b.weights o l) :
    r.lo ≤ r.hi := by
  have hsingle : ∀ x : Char, ∀ r ∈ BracketItem.charWeights o l x, r.lo ≤ r.hi := by
    intro x r hr
    rcases List.mem_cons.mp hr with rfl | hr
    · exact Nat.le_refl _
    · split at hr
      · obtain ⟨y, -, rfl⟩ := List.mem_map.mp hr
        exact Nat.le_refl _
      · cases hr
  obtain ⟨i, hi, hr⟩ := List.mem_flatMap.mp hr
  cases i with
  | char x => exact hsingle x r hr
  | equivalence x =>
    obtain ⟨y, -, hr⟩ := List.mem_flatMap.mp hr
    exact hsingle y r hr
  | cls k => cases hr
  | range lo hi' =>
    rcases List.mem_cons.mp hr with rfl | hr
    · exact hb lo hi' hi
    · split at hr
      · obtain ⟨w, -, hw⟩ := List.mem_filterMap.mp hr
        obtain ⟨y, -, rfl⟩ := Option.map_eq_some_iff.mp hw
        exact Nat.le_refl _
      · cases hr

def listedBytes (b : Bracket) (o : Options) (l : Locale) : ByteSet :=
  (b.classes o).foldl
    (fun s k => s.union (ByteSet.ofPred (fun x => l.isClass k (Char.ofNat x.toNat))))
    ((b.weights o l).foldl
      (fun s r => s.insertRange (UInt8.ofNat r.lo) (UInt8.ofNat r.hi)) ByteSet.empty)

theorem contains_listedBytes (hb : b.Ascending) (hfits : fitsBytes (b.weights o l) = true)
    (hc : c.toNat < 256) :
    (b.listedBytes o l).contains (UInt8.ofNat c.toNat) = true ↔
      ∃ i ∈ b.items, i.Lists o l c := by
  have hbyte : (UInt8.ofNat c.toNat).toNat = c.toNat := UInt8.toNat_ofNat_of_lt' hc
  have hbounds : ∀ r ∈ b.weights o l, r.lo ≤ 0xFF ∧ r.hi ≤ 0xFF := by
    intro r hr
    have hhi : r.hi ≤ 0xFF := by simpa using List.all_eq_true.mp hfits r hr
    have hle := le_of_mem_weights hb hr
    omega
  rw [exists_lists_iff, listedBytes, contains_foldl_union,
    contains_foldl_insertRange _ _ _ hbounds, hbyte]
  simp only [ByteSet.contains_ofPred, hbyte, Char.ofNat_toNat, ByteSet.contains_empty,
    Bool.false_eq_true, or_false]
  exact or_comm

theorem not_lists_of_fitsBytes (hfits : fitsBytes (b.weights o .posix) = true)
    (hc : 256 ≤ c.toNat) : ¬∃ i ∈ b.items, i.Lists o .posix c := by
  rw [exists_lists_iff]
  rintro (⟨r, hr, hmem⟩ | ⟨k, -, hk⟩)
  · have hhi : r.hi ≤ 0xFF := by simpa using List.all_eq_true.mp hfits r hr
    rw [ClosedRange.contains_iff] at hmem
    omega
  · have := CharClass.toNat_lt_of_holdsPosix hk
    omega

theorem contains_narrowSet (hb : b.Ascending) (hfits : fitsBytes (b.weights o .posix) = true) :
    (b.narrowSet o .posix).contains c = true ↔ b.Admits o .posix c := by
  unfold Admits
  cases hneg : b.negated with
  | false =>
    have hset : b.narrowSet o .posix = ⟨b.listedBytes o .posix, false⟩ := by
      rw [narrowSet, hneg, if_neg Bool.false_ne_true]
      rfl
    rw [hset, NarrowSet.contains, if_neg Bool.false_ne_true]
    split
    · rename_i hlt
      exact contains_listedBytes hb hfits hlt
    · rename_i hge
      have hno := not_lists_of_fitsBytes hfits (Nat.le_of_not_lt hge)
      exact ⟨fun h => (nomatch h), fun h => absurd h hno⟩
  | true =>
    have hset : b.narrowSet o .posix = ⟨if o.newlineSensitive then
        (b.listedBytes o .posix).complement.remove 10 else (b.listedBytes o .posix).complement,
        true⟩ := by
      rw [narrowSet, hneg, if_pos rfl]
      rfl
    rw [hset, NarrowSet.contains, if_pos rfl]
    split
    · rename_i hlt
      have hnewline : 10 = UInt8.ofNat c.toNat ↔ c = '\n' := by
        rw [← UInt8.toNat_inj, UInt8.toNat_ofNat_of_lt' hlt, eq_comm]
        exact ⟨fun h => Char.toNat_inj.mp h, fun h => h ▸ rfl⟩
      have hlisted := not_congr (contains_listedBytes hb hfits hlt)
      cases o.newlineSensitive with
      | false => simpa using hlisted
      | true =>
        rw [if_pos rfl, ByteSet.contains_remove, Bool.and_eq_true]
        exact and_congr (by simpa using hlisted) (by simp [hnewline])
    · rename_i hge
      have hno := not_lists_of_fitsBytes hfits (Nat.le_of_not_lt hge)
      refine iff_of_true rfl ⟨fun i hi hl => hno ⟨i, hi, hl⟩, ?_⟩
      rintro ⟨-, rfl⟩
      exact hge (by decide)

theorem admits_consumer (hb : b.Ascending) :
    (b.consumer o l).admits l c = true ↔ b.Admits o l c := by
  unfold consumer
  split
  · rename_i h
    rw [Bool.and_eq_true] at h
    obtain rfl : l = .posix := by
      cases l with
      | posix => rfl
      | unicode => cases h.1
    exact contains_narrowSet hb h.2
  · exact contains_weightSet

end Bracket

end PosixRegex
