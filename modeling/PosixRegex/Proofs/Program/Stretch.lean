import PosixRegex.Proofs.Pattern.References
import PosixRegex.Proofs.Program.Defect
import PosixRegex.Proofs.Program.Placement

namespace PosixRegex

namespace Pattern

variable {p q : Pattern} {n n' : Nat}

/-- The number of the first group behind the first alternative, where the groups are numbered from
`n` on. -/
def limit (n : Nat) : Pattern → Nat
  | done | bar _ => n
  | leaf _ _ rest | assert _ rest => rest.limit n
  | group body _ rest => rest.limit (n + 1 + body.groupCount)

theorem limit_of_none (h : p.afterBar n = none) : p.limit n = n + p.groupCount := by
  induction p generalizing n with
  | done => rfl
  | bar rest => cases h
  | leaf what times rest ih | assert what rest ih => exact ih h
  | group body times rest _ ih =>
    simp only [limit, groupCount, ih h]
    omega

theorem limit_of_some (h : p.afterBar n = some (n', q)) : p.limit n = n' := by
  induction p generalizing n with
  | done => cases h
  | bar rest =>
    obtain ⟨rfl, rfl⟩ : n = n' ∧ rest = q := by simpa [afterBar] using h
    rfl
  | leaf what times rest ih | assert what rest ih | group body times rest _ ih => exact ih h

theorem limit_chars (n : Nat) (cs : List Char) (rest : Pattern) :
    (chars cs rest).limit n = rest.limit n := by
  induction cs with
  | nil => rfl
  | cons c cs ih => exact ih

end Pattern

def Part.refs : Part → List Nat
  | seq p _ | alts p _ | chain p _ | rounds p _ _ _ => p.refs

namespace Target

theorem refs_literal (t : Target) (cs : List Char) : (t.literal cs).refs = [] := by
  unfold literal
  split
  · split <;> rfl
  · split <;> rfl

theorem refs_consumer (t : Target) (what : Leaf) : (t.consumer what).refs = what.refs := by
  cases what with
  | char c => exact t.refs_literal [c]
  | any =>
    rw [consumer]
    split <;> rfl
  | bracket b =>
    rw [consumer, Bracket.consumer]
    split <;> rfl
  | backRef g =>
    rw [consumer]
    split <;> rfl

end Target

namespace Program

/-- The chain that connects the alternatives of group `g` in the instructions from the first place
up to the last one. The list holds the places of all heads and of the mark with distance zero. A
head leads to the head behind the end of its alternative, and the last one leads to the mark, with
which the chain ends. -/
inductive Chain (p : Program) (g : Nat) : Nat → List Nat → Nat → Prop
  | last {pc d : Nat} (hi : p.insts[pc]? = some (.ofAtom (.branch (d + 1))))
      (he : p.insts[pc + (d + 1)]? = some (.ofAtom (.branch 0))) :
      Chain p g pc [pc, pc + (d + 1)] (pc + (d + 1) + 1)
  | more {pc d stop : Nat} {marks : List Nat}
      (hi : p.insts[pc]? = some (.ofAtom (.branch (d + 1))))
      (hj : p.insts[pc + d]? = some (.ofAtom (.join g)))
      (hrest : Chain p g (pc + (d + 1)) marks stop) : Chain p g pc (pc :: marks) stop

variable {p : Program} {lo mid hi a b c g k stop : Nat} {marks loose loose' : List Nat}

theorem Chain.lt (h : p.Chain g a marks b) : a < b := by
  induction h with
  | last | more => omega

theorem Chain.head (h : p.Chain g a marks b) :
    ∃ d, p.insts[a]? = some (.ofAtom (.branch (d + 1))) := by
  cases h with
  | last hi _ => exact ⟨_, hi⟩
  | more hi _ _ => exact ⟨_, hi⟩

theorem Chain.bounds (h : p.Chain g a marks b) (hk : k ∈ marks) : a ≤ k ∧ k < b := by
  induction h with
  | @last pc d hi he =>
    obtain rfl | rfl : k = pc ∨ k = pc + (d + 1) := by simpa using hk
    · omega
    · omega
  | @more pc d stop marks hi hj hrest ih =>
    have hlt := hrest.lt
    obtain rfl | hk := List.mem_cons.mp hk
    · omega
    · have := ih hk
      omega

/-- The span of none of the groups from `lo` up to `hi` holds place `k`. -/
def Clear (p : Program) (lo hi k : Nat) : Prop :=
  ∀ g span, lo ≤ g → g < hi → p.groups[g]? = some span → k < span.start ∨ span.stop < k

/-- Place `k` is in the chain of one of the groups from `lo` up to `hi`. No later group of these is
around that chain. -/
def Chained (p : Program) (lo hi k : Nat) : Prop :=
  ∃ g span marks, lo ≤ g ∧ g < hi ∧ p.groups[g]? = some span ∧
    p.Chain g (span.start + 1) marks span.stop ∧ k ∈ marks ∧ ∀ k ∈ marks, p.Clear (g + 1) hi k

theorem Chained.mono {lo' : Nat} (h : p.Chained lo hi k) (hle : lo' ≤ lo) :
    p.Chained lo' hi k := by
  obtain ⟨g, span, marks, hlo, hchain⟩ := h
  exact ⟨g, span, marks, Nat.le_trans hle hlo, hchain⟩

/-- The instructions from place `a` up to `b` hold the groups from `lo` up to `hi`. All chains of
alternatives in them belong to these groups, but for the one with the places in `loose`. -/
structure Stretch (p : Program) (lo hi a b : Nat) (loose : List Nat) : Prop where
  numbers : lo ≤ hi
  places : a ≤ b
  marked {g : Nat} {span : GroupSpan} (hlo : lo ≤ g) (hhi : g < hi)
    (hg : p.groups[g]? = some span) :
    p.groupDefect? g span = none ∧ a ≤ span.start ∧ span.stop < b
  nested {g g' : Nat} {span span' : GroupSpan} (hlo : lo ≤ g) (hlt : g < g') (hhi : g' < hi)
    (hg : p.groups[g]? = some span) (hg' : p.groups[g']? = some span') :
    span.start < span'.start ∧ (span.stop < span'.start ∨ span'.stop < span.stop)
  free {k : Nat} (hk : k ∈ loose) : a ≤ k ∧ k < b ∧ p.Clear lo hi k
  chained {pc : Nat} {i : Inst} (ha : a ≤ pc) (hb : pc < b) (hi' : p.insts[pc]? = some i)
    (hbranch : i.isBranch = true) : pc ∈ loose ∨ p.Chained lo hi pc
  sound {pc : Nat} {i : Inst} (ha : a ≤ pc) (hb : pc < b) (hi' : p.insts[pc]? = some i) :
    p.instDefect? pc i = none

namespace Stretch

theorem nil (p : Program) (n a : Nat) : p.Stretch n n a a [] where
  numbers := Nat.le_refl n
  places := Nat.le_refl a
  marked := by omega
  nested := by omega
  free := by simp
  chained := by omega
  sound := by omega

theorem inst {i : Inst} (n : Nat) (h : p.insts[a]? = some i) (hs : p.instDefect? a i = none) :
    p.Stretch n n a (a + 1) (if i.isBranch then [a] else []) where
  numbers := Nat.le_refl n
  places := Nat.le_succ a
  marked := by omega
  nested := by omega
  free hk := by
    split at hk
    · obtain rfl := List.mem_singleton.mp hk
      exact ⟨Nat.le_refl _, Nat.lt_succ_self _, fun g span hlo hhi => by omega⟩
    · cases hk
  chained {pc j} ha hb hi' hbranch := by
    obtain rfl : pc = a := by omega
    obtain rfl : i = j := Option.some.inj (h.symm.trans hi')
    exact Or.inl (by simp [hbranch])
  sound {pc j} ha hb hi' := by
    obtain rfl : pc = a := by omega
    obtain rfl : i = j := Option.some.inj (h.symm.trans hi')
    exact hs

theorem clear_left (h : p.Stretch mid hi c b loose) (hk : k < c) (hclear : p.Clear lo mid k) :
    p.Clear lo hi k := by
  intro g span hlo hhi hg
  by_cases hmid : g < mid
  · exact hclear g span hlo hmid hg
  · obtain ⟨-, hstart, -⟩ := h.marked (Nat.le_of_not_lt hmid) hhi hg
    exact Or.inl (Nat.lt_of_lt_of_le hk hstart)

theorem clear_right (h : p.Stretch lo mid a c loose) (hk : c ≤ k) (hclear : p.Clear mid hi k) :
    p.Clear lo hi k := by
  intro g span hlo hhi hg
  by_cases hmid : g < mid
  · obtain ⟨-, -, hstop⟩ := h.marked hlo hmid hg
    exact Or.inr (Nat.lt_of_lt_of_le hstop hk)
  · exact hclear g span (Nat.le_of_not_lt hmid) hhi hg

theorem chained_left (h : p.Stretch lo mid a c loose) (h' : p.Stretch mid hi c b loose')
    (hk : p.Chained lo mid k) : p.Chained lo hi k := by
  obtain ⟨g, span, marks, hlo, hmid, hg, hchain, hmem, hclear⟩ := hk
  obtain ⟨-, -, hstop⟩ := h.marked hlo hmid hg
  refine ⟨g, span, marks, hlo, Nat.lt_of_lt_of_le hmid h'.numbers, hg, hchain, hmem,
    fun k hk => h'.clear_left ?_ (hclear k hk)⟩
  exact Nat.lt_trans (hchain.bounds hk).2 hstop

theorem append (h : p.Stretch lo mid a c loose) (h' : p.Stretch mid hi c b loose') :
    p.Stretch lo hi a b (loose ++ loose') where
  numbers := Nat.le_trans h.numbers h'.numbers
  places := Nat.le_trans h.places h'.places
  marked {g span} hlo hhi hg := by
    by_cases hmid : g < mid
    · obtain ⟨hmarks, hstart, hstop⟩ := h.marked hlo hmid hg
      exact ⟨hmarks, hstart, Nat.lt_of_lt_of_le hstop h'.places⟩
    · obtain ⟨hmarks, hstart, hstop⟩ := h'.marked (Nat.le_of_not_lt hmid) hhi hg
      exact ⟨hmarks, Nat.le_trans h.places hstart, hstop⟩
  nested {g g' span span'} hlo hlt hhi hg hg' := by
    by_cases hmid : g' < mid
    · exact h.nested hlo hlt hmid hg hg'
    · by_cases hmid' : g < mid
      · obtain ⟨hmarks, -, hstop⟩ := h.marked hlo hmid' hg
        obtain ⟨-, hstart, -⟩ := h'.marked (Nat.le_of_not_lt hmid) hhi hg'
        have hbehind := Nat.lt_of_lt_of_le hstop hstart
        exact ⟨Nat.lt_trans (groupDefect?_eq_none_iff.mp hmarks).1 hbehind, Or.inl hbehind⟩
      · exact h'.nested (Nat.le_of_not_lt hmid') hlt hhi hg hg'
  free {k} hk := by
    obtain hk | hk := List.mem_append.mp hk
    · obtain ⟨ha, hc, hclear⟩ := h.free hk
      exact ⟨ha, Nat.lt_of_lt_of_le hc h'.places, h'.clear_left hc hclear⟩
    · obtain ⟨hc, hb, hclear⟩ := h'.free hk
      exact ⟨Nat.le_trans h.places hc, hb, h.clear_right hc hclear⟩
  chained {pc i} ha hb hi' hbranch := by
    by_cases hc : pc < c
    · obtain hloose | hchained := h.chained ha hc hi' hbranch
      · exact Or.inl (List.mem_append_left _ hloose)
      · exact Or.inr (h.chained_left h' hchained)
    · obtain hloose | hchained := h'.chained (Nat.le_of_not_lt hc) hb hi' hbranch
      · exact Or.inl (List.mem_append_right _ hloose)
      · exact Or.inr (hchained.mono h.numbers)
  sound {pc i} ha hb hi' := by
    by_cases hc : pc < c
    · exact h.sound ha hc hi'
    · exact h'.sound (Nat.le_of_not_lt hc) hb hi'

/-- The markers of a group around a stretch. What is chained in the stretch itself becomes the
chain of the group. -/
theorem group {times : Repetition} (h : p.Stretch (g + 1) hi (a + 1) c loose)
    (he : p.insts[a]? = some ⟨.enter g, times⟩) (hl : p.insts[c]? = some ⟨.leave g, times⟩)
    (hg : p.groups[g]? = some ⟨a, c⟩) (hloose : loose = [] ∨ p.Chain g (a + 1) loose c) :
    p.Stretch g hi a (c + 1) [] := by
  -- With its markers the stretch still leaves out group `g`; only what it says of groups changes.
  have hall := ((inst (g + 1) he rfl).append h).append (inst hi hl rfl)
  refine ⟨Nat.le_of_succ_le h.numbers, hall.places, ?_, ?_, by simp, ?_, hall.sound⟩
  · intro g' span hlo hhi hg'
    by_cases hne : g' = g
    · subst hne
      obtain rfl := Option.some.inj (hg.symm.trans hg')
      refine ⟨groupDefect?_eq_none_iff.mpr ⟨h.places, times, he, hl⟩, ?_, ?_⟩
      · exact Nat.le_refl a
      · exact Nat.lt_succ_self c
    · exact hall.marked (by omega) hhi hg'
  · intro g₁ g₂ span span' hlo hlt hhi hg₁ hg₂
    by_cases hne : g₁ = g
    · subst hne
      obtain rfl := Option.some.inj (hg.symm.trans hg₁)
      obtain ⟨-, hstart, hstop⟩ := h.marked hlt hhi hg₂
      exact ⟨hstart, Or.inr hstop⟩
    · exact hall.nested (by omega) hlt hhi hg₁ hg₂
  · intro pc i ha hb hi' hbranch
    apply Or.inr
    obtain hmem | hchained := hall.chained ha hb hi' hbranch
    · have hmem : pc ∈ loose := by simpa [Inst.isBranch] using hmem
      obtain rfl | hchain := hloose
      · cases hmem
      · exact ⟨g, ⟨a, c⟩, loose, Nat.le_refl g, h.numbers, hg, hchain, hmem,
          fun k hk => (h.free hk).2.2⟩
    · exact hchained.mono (Nat.le_succ g)

end Stretch

def ClosesAt (p : Program) (pc g : Nat) : Prop := ∃ i, p.insts[pc]? = some i ∧ i.closes? = some g

theorem ClosesAt.unique {g' : Nat} (h : p.ClosesAt c g) (h' : p.ClosesAt c g') : g = g' := by
  obtain ⟨i, hi, hclose⟩ := h
  obtain ⟨i', hi', hclose'⟩ := h'
  obtain rfl := Option.some.inj (hi.symm.trans hi')
  exact Option.some.inj (hclose.symm.trans hclose')

/-- The instructions from `a` up to `b` hold the groups of a part. The alternatives of a group end
where it is closed. -/
def Holds (p : Program) : Part → Nat → Nat → Prop
  | .seq q n, a, b => p.Stretch n (q.limit n) a b []
  | .alts q n, a, b => ∀ g, p.ClosesAt b g → ∃ loose, p.Stretch n (n + q.groupCount) a b loose ∧
      (loose = [] ∨ p.Chain g a loose b)
  | .chain q n, a, b => ∀ g, p.ClosesAt b g → ∃ marks, p.Stretch n (n + q.groupCount) a b marks ∧
      p.Chain g a marks b
  | .rounds _ _ _ _, _, _ => True

variable {t : Target} {q rest : Pattern} {n d : Nat}

/-- The parts of a pattern hold their groups, if every group is closed where the table says. -/
theorem holds_of_laid {part : Part}
    (hclose : ∀ g span, p.groups[g]? = some span → p.ClosesAt span.stop g)
    (h : Laid p t part a b) (hrefs : ∀ g ∈ part.refs, g < p.groups.size) : p.Holds part a b := by
  induction h with
  | done | bar => exact Stretch.nil p _ _
  | @run cs rest n a b hcs hi hrest ih =>
    rw [Part.refs, Pattern.refs_chars] at hrefs
    have hone := Stretch.inst n hi
      (instDefect?_consume_eq_none_iff.mpr (by simp [Target.refs_literal]))
    rw [Holds, Pattern.limit_chars]
    exact hone.append (ih hrefs)
  | @leaf what times rest n a b hi hrest ih =>
    have hwhat : ∀ g ∈ (t.consumer what).refs, g < p.groups.size := by
      rw [Target.refs_consumer]
      exact fun g hg => hrefs g (List.mem_append_left _ hg)
    have hone := Stretch.inst n hi (instDefect?_consume_eq_none_iff.mpr hwhat)
    exact hone.append (ih fun g hg => hrefs g (List.mem_append_right _ hg))
  | @assert what rest n a b hi hrest ih =>
    have hone := Stretch.inst n hi rfl
    exact hone.append (ih hrefs)
  | @group body rest times n a b c hi hbody hl hg hrest ihbody ihrest =>
    obtain ⟨loose, hin, hloose⟩ :=
      ihbody (fun g hg => hrefs g (List.mem_append_left _ hg)) n ⟨_, hl, rfl⟩
    have hgroup := hin.group hi hl hg hloose
    exact hgroup.append (ihrest fun g hg => hrefs g (List.mem_append_right _ hg))
  | @only q n a b hq hseq ih =>
    intro g hg
    have hin := ih hrefs
    rw [Holds, Pattern.limit_of_none hq] at hin
    exact ⟨[], hin, Or.inl rfl⟩
  | headed hchain ih =>
    intro g hg
    obtain ⟨marks, hin, hmarks⟩ := ih hrefs g hg
    exact ⟨marks, hin, Or.inr hmarks⟩
  | @last q n a b d hq hi hd hseq he ih =>
    intro g hg
    subst hd
    have hin := ih hrefs
    rw [Holds, Pattern.limit_of_none hq] at hin
    have hhead := Stretch.inst n hi (instDefect?_branch_eq_none_iff.mpr ⟨_, _, he⟩)
    have hmark := Stretch.inst (n + q.groupCount) he rfl
    exact ⟨_, (hhead.append hin).append hmark, .last hi he⟩
  | @more q q' n n' a b c d g' span hq hi hd hseq hj hg hstop hchain ihseq ihchain =>
    intro g hclosed
    -- The group that the alternative joins is closed where the chain ends, as `g` is.
    obtain rfl : g' = g := (hstop ▸ hclose g' span hg).unique hclosed
    obtain ⟨marks, hlater, hmarks⟩ := ihchain
      (fun g hg => hrefs g (Pattern.refs_subset_of_afterBar hq hg)) g' hclosed
    have hfirst := ihseq hrefs
    rw [Holds, Pattern.limit_of_some hq] at hfirst
    rw [(Pattern.le_of_afterBar hq).2] at hlater
    obtain ⟨d', hnext⟩ := hmarks.head
    have hhead := Stretch.inst n hi (instDefect?_branch_eq_none_iff.mpr ⟨_, _, hd ▸ hnext⟩)
    have hlt := (Array.getElem?_eq_some_iff.mp hg).1
    have hjoin := Stretch.inst n' hj (instDefect?_join_eq_none_iff.mpr hlt)
    obtain rfl : b = a + d := by omega
    exact ⟨_, ((hhead.append hfirst).append hjoin).append hlater, .more hi hj hmarks⟩

end Program

end PosixRegex
