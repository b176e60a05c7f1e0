import PosixRegex.Proofs.Caseless
import PosixRegex.Proofs.Pattern.Leaves
import PosixRegex.Proofs.Program.FirstBytes
import PosixRegex.Proofs.Program.Placement
import PosixRegex.Proofs.Search.Meaning

namespace PosixRegex

variable {o : Options} {c : Char}

namespace BracketItem

variable {i : BracketItem}

theorem spelled_iff (ho : o.ignoreCase = true) {x : Char} :
    c = x ∨ o.ignoreCase = true ∧ Locale.posix.opposite? x = some c ↔ c.toLower = x.toLower := by
  simp only [ho, true_and]
  exact Locale.same_letter_iff

theorem caseless_cls (k : CharClass) :
    Caseless fun c => k.holdsPosix c || k.opposite?.any (·.holdsPosix c) :=
  .of_ascii fun _ hc => of_forall_code
    (P := fun c => ∀ k ∈ CharClass.all, (k.holdsPosix c.toLower ||
      k.opposite?.any (·.holdsPosix c.toLower)) = (k.holdsPosix c || k.opposite?.any (·.holdsPosix c)))
    (by decide +kernel) hc k (CharClass.mem_all k)

theorem lists_toLower (ho : o.ignoreCase = true) :
    i.Lists o .posix c.toLower ↔ i.Lists o .posix c := by
  cases i with
  | char x => simp only [Lists, spelled_iff ho, toLower_toLower]
  | range lo hi =>
    have hrange : ∀ c : Char, (range lo hi).Lists o .posix c ↔
        ∃ x : Char, lo.toNat ≤ x.toNat ∧ x.toNat ≤ hi.toNat ∧ c.toLower = x.toLower := by
      intro c
      simp only [Lists, ho, true_and, ← Locale.same_letter_iff]
      constructor
      · rintro (h | ⟨x, hlo, hhi, hx⟩)
        · exact ⟨c, h.1, h.2, Or.inl rfl⟩
        · exact ⟨x, hlo, hhi, Or.inr hx⟩
      · rintro ⟨x, hlo, hhi, rfl | hx⟩
        · exact Or.inl ⟨hlo, hhi⟩
        · exact Or.inr ⟨x, hlo, hhi, hx⟩
    simp only [hrange, toLower_toLower]
  | equivalence x => simp only [Lists, spelled_iff ho, toLower_toLower]
  | cls k =>
    have hcls : ∀ c, (cls k).Lists o .posix c ↔
        (k.holdsPosix c || k.opposite?.any (·.holdsPosix c)) = true := by
      intro c
      simp only [Lists, ho, true_and, Locale.isClass, Bool.or_eq_true, Option.any_eq_true]
    rw [hcls, hcls]
    exact Bool.eq_iff_iff.mp (caseless_cls k c)

end BracketItem

theorem Bracket.admits_toLower (ho : o.ignoreCase = true) (b : Bracket) :
    b.Admits o .posix c.toLower ↔ b.Admits o .posix c := by
  simp only [Admits, BracketItem.lists_toLower ho, toLower_eq_newline_iff]

theorem Target.spells_posix {t : Target} (ht : t.options.ignoreCase = true)
    (hl : t.locale = .posix) (x : Char) : t.spells c x = (x.toLower == c.toLower) := by
  rw [Bool.eq_iff_iff, Matcher.spells_iff, hl, BracketItem.spelled_iff ht, beq_iff_eq]

theorem caseless_same (c : Char) : Caseless fun x => x.toLower == c.toLower := by
  intro x
  simp only [toLower_toLower]

namespace Consumer

def IgnoresCase : Consumer → Prop
  | literal c => Caseless (· == c)
  | literalFold c other => Caseless fun x => x == c || x == other
  | text cs => ∀ c ∈ cs, Caseless (· == c)
  | textFold pairs => ∀ pair ∈ pairs, Caseless fun x => x == pair.1 || x == pair.2
  | any | anyButNewline | backRefFold _ => True
  | narrow s => Caseless s.contains
  | weighted s => Caseless (s.contains .posix)
  | backRef _ => False

theorem caseless_ofLeads {cs : List Char}
    (h : ∀ c, c.toNat < 128 → (c.toLower ∈ cs ↔ c ∈ cs)) :
    Caseless fun c => (ByteSet.ofLeads cs).contains (leadByte c) := by
  have hmem : ∀ c : Char, c.toNat < 128 →
      ((ByteSet.ofLeads cs).contains (leadByte c) = true ↔ c ∈ cs) := by
    intro c hc
    simp only [ByteSet.contains_ofLeads, leadByte_eq_iff hc, exists_eq_right]
  refine .of_ascii fun c hc => ?_
  rw [Bool.eq_iff_iff, hmem c hc, hmem c.toLower (toLower_lt hc), h c hc]

theorem IgnoresCase.firstBytes {what : Consumer} (h : what.IgnoresCase) :
    Caseless fun c => what.firstBytes.contains (leadByte c) := by
  have hfull : Caseless fun c => ByteSet.full.contains (leadByte c) := by
    intro c
    simp only [ByteSet.contains_full]
  have hone : ∀ {c : Char}, Caseless (· == c) →
      Caseless fun x => (ByteSet.ofLeads [c]).contains (leadByte x) :=
    fun h => caseless_ofLeads fun x _ => by simpa using Bool.eq_iff_iff.mp (h x)
  have hpair : ∀ {c d : Char}, (Caseless fun x => x == c || x == d) →
      Caseless fun x => (ByteSet.ofLeads [c, d]).contains (leadByte x) :=
    fun h => caseless_ofLeads fun x _ => by simpa using Bool.eq_iff_iff.mp (h x)
  cases what with
  | literal c => exact hone h
  | literalFold c d => exact hpair h
  | text cs =>
    cases cs with
    | nil => exact hfull
    | cons c cs => exact hone (h c List.mem_cons_self)
  | textFold pairs =>
    cases pairs with
    | nil => exact hfull
    | cons pair pairs => exact hpair (h pair List.mem_cons_self)
  | any | anyButNewline | backRef | backRefFold | weighted => exact hfull
  | narrow s =>
    unfold Consumer.firstBytes
    simp only
    split
    · exact hfull
    · refine caseless_ofLeads fun c hc => ?_
      have hlower := toLower_lt hc
      rw [NarrowSet.mem_chars_iff (by omega), NarrowSet.mem_chars_iff (by omega), h c]

end Consumer

namespace Target

variable {t : Target} (ht : t.options.ignoreCase = true) (hl : t.locale = .posix)

include ht hl

theorem ignoresCase_literal (cs : List Char) : (t.literal cs).IgnoresCase := by
  have hpair : ∀ c, Caseless fun x => x == (t.pair c).1 || x == (t.pair c).2 := by
    intro c
    have hspells : t.spells c = fun x => x.toLower == c.toLower := funext (t.spells_posix ht hl)
    have hpair : (fun x => x == (t.pair c).1 || x == (t.pair c).2) = t.spells c := by
      funext x
      simp [spells, ht, pair]
    rw [hpair, hspells]
    exact caseless_same c
  unfold literal
  rw [if_pos ht]
  split
  · exact hpair _
  · intro pair hmem
    obtain ⟨c, -, rfl⟩ := List.mem_map.mp hmem
    exact hpair c

theorem ignoresCase_consumer {what : Leaf} (hwhat : what.Proper []) :
    (t.consumer what).IgnoresCase := by
  cases what with
  | char c => exact ignoresCase_literal ht hl [c]
  | any =>
    rw [consumer]
    split <;> trivial
  | bracket b =>
    have hadmits : Caseless ((b.consumer t.options t.locale).admits .posix) := by
      intro c
      rw [Bool.eq_iff_iff, hl, Bracket.admits_consumer hwhat, Bracket.admits_consumer hwhat]
      exact b.admits_toLower ht
    rw [consumer]
    unfold Bracket.consumer at hadmits ⊢
    split at hadmits
    · rename_i hbytes
      rwa [if_pos hbytes]
    · rename_i hbytes
      rwa [if_neg hbytes]
  | backRef g =>
    rw [consumer, if_pos ht]
    trivial

end Target

def Inst.consumer? (i : Inst) : Option Consumer :=
  match i.atom with
  | .consume what => some what
  | _ => none

namespace Pattern

variable {t : Target} {P : Consumer → Prop} (hrun : ∀ cs, P (t.literal cs))

include hrun

theorem forall_consumers_flush (pending : List Char) :
    ∀ what ∈ (t.flush pending).filterMap Inst.consumer?, P what := by
  unfold Target.flush
  split
  · exact fun _ hwhat => nomatch hwhat
  · exact fun what hwhat => List.mem_singleton.mp hwhat ▸ hrun _

/-- What is consumed in the code of a pattern are runs of characters and items of the pattern. -/
theorem forall_consumers_branches {p : Pattern} {n : Nat} {pending : List Char}
    (hleaves : ∀ what ∈ p.leaves, P (t.consumer what)) :
    ∀ what ∈ (p.branches t n pending).flatten.filterMap Inst.consumer?, P what := by
  fun_induction Pattern.branches t n pending p with
  | case1 next pending =>
    rw [List.flatten_singleton]
    exact forall_consumers_flush hrun pending
  | case2 next pending c rest _ ih => exact ih (List.forall_mem_cons.mp hleaves).2
  | case3 next pending c rest _ ih =>
    rw [flatten_prepend, List.filterMap_append]
    exact List.forall_mem_append.mpr ⟨forall_consumers_flush hrun pending,
      ih (List.forall_mem_cons.mp hleaves).2⟩
  | case4 next pending what times rest _ ih =>
    obtain ⟨hwhat, hrest⟩ := List.forall_mem_cons.mp hleaves
    rw [flatten_prepend, List.filterMap_append, List.filterMap_append]
    refine List.forall_mem_append.mpr ⟨List.forall_mem_append.mpr
      ⟨forall_consumers_flush hrun pending, ?_⟩, ih hrest⟩
    exact List.forall_mem_singleton.mpr hwhat
  | case5 next pending what rest ih =>
    rw [flatten_prepend, List.filterMap_append, List.filterMap_append]
    exact List.forall_mem_append.mpr ⟨List.forall_mem_append.mpr
      ⟨forall_consumers_flush hrun pending, List.forall_mem_nil _⟩, ih hleaves⟩
  | case6 next pending body times rest inner ihbody ihrest =>
    obtain ⟨hbody, hrest⟩ := List.forall_mem_append.mp hleaves
    have hinner : ∀ what ∈ inner.filterMap Inst.consumer?, P what := by
      rw [filterMap_link (fun _ _ => rfl) (fun _ _ => rfl)]
      exact ihbody hbody
    rw [flatten_prepend, List.filterMap_append, List.filterMap_append, List.filterMap_append]
    refine List.forall_mem_append.mpr ⟨List.forall_mem_append.mpr ⟨List.forall_mem_append.mpr
      ⟨forall_consumers_flush hrun pending, hinner⟩, List.forall_mem_nil _⟩, ihrest hrest⟩
  | case7 next pending rest ih =>
    rw [List.flatten_cons, List.filterMap_append]
    exact List.forall_mem_append.mpr ⟨forall_consumers_flush hrun pending, ih hleaves⟩

theorem forall_consumers_ofPattern {p : Pattern}
    (hleaves : ∀ what ∈ p.leaves, P (t.consumer what)) :
    ∀ i ∈ (Program.ofPattern t p).insts, ∀ what, i.atom = .consume what → P what := by
  intro i hi what hwhat
  have hmem : what ∈ (p.code t).filterMap Inst.consumer? :=
    List.mem_filterMap.mpr ⟨i, by simpa [Program.ofPattern] using hi, by simp [Inst.consumer?, hwhat]⟩
  have hcode : (p.code t).filterMap Inst.consumer? =
      (p.branches t 1 []).flatten.filterMap Inst.consumer? := by
    simp [code, @filterMap_link Consumer Inst.consumer? (fun _ _ => rfl) (fun _ _ => rfl),
      Inst.consumer?, Inst.ofAtom]
  rw [hcode] at hmem
  exact forall_consumers_branches hrun hleaves what hmem

end Pattern

namespace Program

variable {t : Target} {p : Pattern}

theorem ignoresCase_ofPattern (ht : t.options.ignoreCase = true) (hl : t.locale = .posix)
    (hp : p.Proper [] 1) :
    ∀ i ∈ (ofPattern t p).insts, ∀ what, i.atom = .consume what → what.IgnoresCase :=
  Pattern.forall_consumers_ofPattern (t.ignoresCase_literal ht hl) fun what hwhat =>
    t.ignoresCase_consumer ht hl (hp.leaves what hwhat)

theorem caseless_firstBytes (ht : t.options.ignoreCase = true) (hl : t.locale = .posix)
    (hp : p.Proper [] 1) :
    Caseless fun c => (ofPattern t p).firstBytes.contains (leadByte c) :=
  computeFirstBytes_of_insts (P := fun s => Caseless fun c => s.contains (leadByte c))
    (fun c => by simp only [ByteSet.contains_full])
    (fun s s' hs hs' c => by simp only [ByteSet.contains_union, hs c, hs' c])
    fun i hi what hwhat => (ignoresCase_ofPattern ht hl hp i hi what hwhat).firstBytes

end Program

end PosixRegex
