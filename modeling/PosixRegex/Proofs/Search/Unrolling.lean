import PosixRegex.Proofs.Pattern.Context
import PosixRegex.Proofs.Program.Stretch
import PosixRegex.Proofs.Search.Completeness
import PosixRegex.Proofs.Search.FirstMatch
import PosixRegex.Proofs.Search.Mirror
import PosixRegex.Proofs.Search.Opening

namespace PosixRegex

theorem Pattern.exists_afterBar_copies (p k : Pattern) (count n : Nat) :
    ∃ first, (p.copies count k).afterBar n = k.afterBar first := by
  induction count generalizing n with
  | zero => exact ⟨n, rfl⟩
  | succ count ih => exact ih (n + 1 + p.groupCount)

def Part.renumber (part : Part) (n : Nat) : Part :=
  match part with
  | seq p _ => seq p n
  | alts p _ => alts p n
  | chain p _ => chain p n
  | rounds body times _ count => rounds body times n count

namespace Matcher

variable {m m' : Matcher} {t : Target} {part : Part} {p r : Pattern} {s s' : Place}
  {pos mid next count total g n : Nat}

/-- A part leads from one position to another, whatever the slots are and wherever the numbers of
its groups start. -/
def Crosses (m : Matcher) (t : Target) (part : Nat → Part) (pos next : Nat) : Prop :=
  ∀ n slots, ∃ slots', m.Walk t (part n) ⟨pos, slots⟩ ⟨next, slots'⟩

theorem Walk.crosses (h : m.Shares m') (hw : m.Walk t part s s') (hrefs : part.refs = []) :
    m'.Crosses t part.renumber s.pos s'.pos := by
  induction hw with
  | done => exact fun _ slots => ⟨slots, .done⟩
  | bar => exact fun _ slots => ⟨slots, .bar⟩
  | @leaf what times rest _ _ s _ hr _ ih =>
    intro n slots
    obtain ⟨hwhat, hrest⟩ := List.append_eq_nil_iff.mp hrefs
    -- The item refers to no group, so that it does not depend on the slots.
    have hsame : ∀ g ∈ what.refs, s.slots[g]? = slots[g]? := by
      intro g hg
      rw [hwhat] at hg
      cases hg
    exact (ih hrest n slots).imp fun _ => .leaf (hr.congr (h.consume hsame))
  | assert hholds _ ih =>
    intro n slots
    exact (ih hrefs n slots).imp fun _ => .assert (h.holds _ _ ▸ hholds)
  | skip hmin _ ih =>
    intro n slots
    obtain ⟨-, hrest⟩ := List.append_eq_nil_iff.mp hrefs
    exact (ih hrest _ _).imp fun _ => .skip hmin
  | group _ _ ih₁ ih₂ =>
    intro n slots
    obtain ⟨hbody, hrest⟩ := List.append_eq_nil_iff.mp hrefs
    obtain ⟨slots₁, h₁⟩ := ih₁ hbody n (slots.enter n _)
    exact (ih₂ hrest _ slots₁).imp fun _ => .group h₁
  | @once body _ count s _ _ ih =>
    intro n slots
    obtain ⟨slots₁, h₁⟩ := ih hrefs (n + 1) slots
    have hround : m'.Walk t (.rounds body .once n count) ⟨s.pos, slots⟩ _ := .once h₁
    exact ⟨_, hround⟩
  | empty ho _ hpos hcount ih =>
    intro n slots
    obtain ⟨slots₁, h₁⟩ := ih hrefs (n + 1) slots
    have hround := Walk.empty ho h₁ hpos hcount
    exact ⟨_, hround⟩
  | enough ho _ hpos hcount ih =>
    intro n slots
    obtain ⟨slots₁, h₁⟩ := ih hrefs (n + 1) slots
    have hround := Walk.enough ho h₁ hpos hcount
    exact ⟨_, hround⟩
  | again ho _ hpos hcount _ ih₁ ih₂ =>
    intro n slots
    obtain ⟨slots₁, h₁⟩ := ih₁ hrefs (n + 1) slots
    exact (ih₂ hrefs n _).imp fun _ => .again ho h₁ hpos hcount
  | here _ ih =>
    intro n slots
    exact (ih hrefs n slots).imp fun _ => .here
  | @later p q _ _ _ _ hq _ ih =>
    intro n slots
    have hrefs : p.refs = [] := hrefs
    have hsubset := Pattern.refs_subset_of_afterBar hq
    rw [hrefs] at hsubset
    obtain ⟨first, hfirst⟩ := Pattern.exists_afterBar hq n
    exact (ih (List.subset_nil.mp hsubset) first slots).imp fun _ => .later hfirst

namespace Crosses

variable {times : Repetition}

theorem here (h : m.Crosses t (.seq p) pos next) : m.Crosses t (.alts p) pos next :=
  fun n slots => (h n slots).imp fun _ => .here

theorem once (h : m.Crosses t (.alts p) pos next) :
    m.Crosses t (fun g => .rounds p .once g count) pos next := by
  intro g slots
  obtain ⟨slots₁, h₁⟩ := h (g + 1) slots
  have hround : m.Walk t (.rounds p .once g count) ⟨pos, slots⟩ _ := .once h₁
  exact ⟨_, hround⟩

theorem empty (h : m.Crosses t (.alts p) pos pos) (ho : times ≠ .once)
    (hcount : count < max times.min 1) :
    m.Crosses t (fun g => .rounds p times g count) pos pos := by
  intro g slots
  obtain ⟨slots₁, h₁⟩ := h (g + 1) slots
  have hround := Walk.empty ho h₁ rfl hcount
  exact ⟨_, hround⟩

theorem enough (h : m.Crosses t (.alts p) pos next) (ho : times ≠ .once) (hne : next ≠ pos)
    (hcount : times.min ≤ count + 1) :
    m.Crosses t (fun g => .rounds p times g count) pos next := by
  intro g slots
  obtain ⟨slots₁, h₁⟩ := h (g + 1) slots
  have hround := Walk.enough ho h₁ hne (Or.inl hcount)
  exact ⟨_, hround⟩

theorem again (h : m.Crosses t (.alts p) pos mid) (ho : times ≠ .once) (hne : mid ≠ pos)
    (hcount : times.belowMax (count + 1) = true)
    (hrest : m.Crosses t (fun g => .rounds p times g (count + 1)) mid next) :
    m.Crosses t (fun g => .rounds p times g count) pos next := by
  intro g slots
  obtain ⟨slots₁, h₁⟩ := h (g + 1) slots
  exact (hrest g _).imp fun _ => .again ho h₁ hne hcount

theorem group (h : m.Crosses t (fun g => .rounds p times g 0) pos mid)
    (hrest : m.Crosses t (.seq r) mid next) : m.Crosses t (.seq (.group p times r)) pos next := by
  intro n slots
  obtain ⟨slots₁, h₁⟩ := h n (slots.enter n pos)
  exact (hrest (n + 1 + p.groupCount) slots₁).imp fun _ => .group h₁

theorem isNullable (h : m.Crosses t (.alts p) pos pos) : p.isNullable true true = true := by
  obtain ⟨slots, hw⟩ := h 0 #[]
  exact hw.mayBeEmpty rfl

theorem of_isNullable (h : p.isNullable false true = true) (pos : Nat) :
    m.Crosses t (.alts p) pos pos := by
  intro n slots
  exact idles_of_isNullable h ⟨pos, slots⟩

end Crosses

/-- A pattern leads from one position to another, crossed `count` times in a row. -/
inductive Crossed (m : Matcher) (t : Target) (p : Pattern) : (count pos next : Nat) → Prop
  | zero {pos : Nat} : Crossed m t p 0 pos pos
  | succ {count pos mid next : Nat} (hfirst : m.Crosses t (.alts p) pos mid)
      (hrest : Crossed m t p count mid next) : Crossed m t p (count + 1) pos next

theorem crossed_idle (h : m.Crosses t (.alts p) pos pos) (count : Nat) :
    m.Crossed t p count pos pos := by
  induction count with
  | zero => exact .zero
  | succ count ih => exact .succ h ih

theorem Crossed.copies (h : m.Crossed t p count pos mid) (hr : m.Crosses t (.seq r) mid next) :
    m.Crosses t (.seq (p.copies count r)) pos next := by
  induction h with
  | zero => exact hr
  | succ hfirst _ ih => exact hfirst.once.group (ih hr)

theorem exists_crossed_of_copies (h : m.Shares m') (hp : p.refs = []) (hr : r.refs = [])
    (hw : m.Walk t (.seq (p.copies count r) n) s s') :
    ∃ mid, m'.Crossed t p count s.pos mid ∧ m'.Crosses t (.seq r) mid s'.pos := by
  induction count generalizing n s with
  | zero => exact ⟨s.pos, .zero, hw.crosses h hr⟩
  | succ count ih =>
    cases hw with
    | skip hmin => cases hmin
    | group hrounds hrest =>
      cases hrounds with
      | once hbody =>
        obtain ⟨mid, hcrossed, hnext⟩ := ih hrest
        exact ⟨mid, .succ (hbody.crosses h hp) hcrossed, hnext⟩
      | empty ho | enough ho | again ho => exact absurd rfl ho

/-- An empty iteration stands for all that are left to be made. -/
theorem crossed_of_rounds (h : m.Shares m') (hp : p.refs = []) (hcount : count < total)
    (hw : m.Walk t (.rounds p (.between total total) g count) s s') :
    m'.Crossed t p (total - count) s.pos s'.pos := by
  induction htodo : total - count generalizing count s with
  | zero => omega
  | succ todo ih =>
    cases hw with
    | empty _ hbody hpos _ =>
      have hidle := hbody.crosses h hp
      rw [hpos] at hidle ⊢
      exact crossed_idle hidle _
    | enough _ hbody _ hlast =>
      have hlast : total ≤ count + 1 := by
        simpa [Repetition.min, Repetition.belowMax, Repetition.max?] using hlast
      obtain rfl : todo = 0 := by omega
      exact .succ (hbody.crosses h hp) .zero
    | again _ hbody _ hmore hrest =>
      have hmore : count + 1 < total := of_decide_eq_true hmore
      have hcrossed := ih hmore hrest (by omega)
      exact .succ (hbody.crosses h hp) hcrossed

/-- Iterations make up a loop, if none of them is empty but the last one. An empty one is left out
where another one is to be had anywhere. -/
theorem Crossed.rounds {todo : Nat} (h : m.Crossed t p todo pos next) (hcount : count < total)
    (htodo : count + todo ≤ total)
    (hempty : total = 1 ∨ p.isNullable true true = false ∨ p.isNullable false true = true)
    (henough : count + todo = total ∨ p.isNullable false true = true) :
    m.Crosses t (fun g => .rounds p (.between total total) g count) pos next := by
  have ho : Repetition.between total total ≠ .once := fun ho => nomatch ho
  have hmin : ∀ {count}, count < total → count < max (Repetition.between total total).min 1 :=
    fun h => Nat.lt_of_lt_of_le h (Nat.le_max_left total 1)
  induction h generalizing count with
  | @zero pos =>
    have hidle := henough.resolve_left (by omega)
    exact (Crosses.of_isNullable hidle pos).empty ho (hmin hcount)
  | @succ todo pos mid next hfirst hrest ih =>
    by_cases hpos : mid = pos
    · subst hpos
      by_cases hidle : p.isNullable false true = true
      · exact ih hcount (by omega) (Or.inr hidle)
      · -- Only a loop of one iteration is left, as this one is empty here but not everywhere.
        have hone : total = 1 := by
          refine hempty.resolve_right fun hempty => ?_
          rw [hfirst.isNullable] at hempty
          exact hempty.elim nofun hidle
        obtain rfl : todo = 0 := by omega
        cases hrest
        exact hfirst.empty ho (hmin hcount)
    · by_cases hlast : count + 1 = total
      · obtain rfl : todo = 0 := by omega
        cases hrest
        exact hfirst.enough ho hpos (Nat.le_of_eq hlast.symm)
      · have hmore : count + 1 < total := by omega
        have hrounds := ih hmore (by omega) (henough.imp_left (by omega))
        exact hfirst.again ho hpos (decide_eq_true hmore) hrounds

theorem crosses_later {u q : Pattern} {n' : Nat} (h : m.Shares m') (hr : r.refs = [])
    (hq : r.afterBar n = some (n', q)) (hw : m.Walk t (.alts q n') s s')
    (hu : ∀ n, ∃ first, u.afterBar n = r.afterBar first) :
    m'.Crosses t (.alts u) s.pos s'.pos := by
  have hsubset := Pattern.refs_subset_of_afterBar hq
  rw [hr] at hsubset
  intro n slots
  obtain ⟨first, hfirst⟩ := hu n
  obtain ⟨next, hnext⟩ := Pattern.exists_afterBar hq first
  have hcross := hw.crosses h (List.subset_nil.mp hsubset)
  exact (hcross next slots).imp fun _ => .later (hfirst.trans hnext)

theorem crosses_copies (h : m.Shares m') (hp : p.refs = []) (hr : r.refs = []) (htotal : 0 < total)
    (hw : m.Walk t (.alts (.group p (.between total total) r) n) s s') :
    m'.Crosses t (.alts (p.copies total r)) s.pos s'.pos := by
  cases hw with
  | here hseq =>
    cases hseq with
    | skip hmin => exact absurd hmin (Nat.ne_of_gt htotal)
    | group hrounds hrest =>
      have hcrossed := crossed_of_rounds h hp htotal hrounds
      exact (hcrossed.copies (hrest.crosses h hr)).here
  | later hq hbehind =>
    exact crosses_later h hr hq hbehind (Pattern.exists_afterBar_copies p r total)

/-- Where the copies lead the loop leads as well, unless an iteration of it may be empty at some
places only. -/
theorem crosses_loop (h : m.Shares m') (hp : p.refs = []) (hr : r.refs = []) (htotal : 0 < total)
    (hempty : total = 1 ∨ p.isNullable true true = false ∨ p.isNullable false true = true)
    (hw : m.Walk t (.alts (p.copies total r) n) s s') :
    m'.Crosses t (.alts (.group p (.between total total) r)) s.pos s'.pos := by
  cases hw with
  | here hseq =>
    obtain ⟨mid, hcrossed, hrest⟩ := exists_crossed_of_copies h hp hr hseq
    have hrounds := hcrossed.rounds htotal (Nat.le_of_eq (Nat.zero_add total)) hempty
      (Or.inl (Nat.zero_add total))
    exact (hrounds.group hrest).here
  | later hq hbehind =>
    obtain ⟨first, hfirst⟩ := Pattern.exists_afterBar_copies p r total n
    rw [hfirst] at hq
    exact crosses_later h hr hq hbehind fun n => ⟨n + 1 + p.groupCount, rfl⟩

theorem isSome_firstFound_of_crosses {p q : Pattern} (h : m.Shares m')
    (hm : m.program = .ofPattern t p) (hm' : m'.program = .ofPattern t q)
    (hcross : ∀ {pos s}, m.Walk t (.alts p 1) (m.startPlace pos) s →
      m'.Crosses t (.alts q) pos s.pos) {start : Nat}
    (hfound : (m.firstFound t p start).isSome = true) :
    (m'.firstFound t q start).isSome = true := by
  rw [isSome_firstFound_iff hm] at hfound
  rw [isSome_firstFound_iff hm', ← h.subject]
  obtain ⟨pos, s, hstart, hboundary, hw⟩ := hfound
  obtain ⟨slots, hw'⟩ := hcross hw 1 (m'.startSlots pos)
  exact ⟨pos, _, hstart, hboundary, hw'⟩

/-- A group that is repeated `total` times matches nothing that as many copies of it do not match.
The copies match nothing more either, unless the group may be empty at some places but not
everywhere. -/
theorem execute_unrolled {o : Options} {l : Locale} {compileLimits : CompileLimits}
    {body behind : List Char} {p r : Pattern} {total : Nat} {loop unrolled : Program}
    (ho : o.dialect = .extended) (hp : Pattern.read o.dialect compileLimits body = .ok p)
    (hr : Pattern.read o.dialect compileLimits behind = .ok r) (hprefs : p.refs = [])
    (hrrefs : r.refs = []) (htotal : 1 ≤ total)
    (hloop : Program.compile o l compileLimits
      ('(' :: (body ++ (')' :: ((Repetition.between total total).suffix.toList ++ behind)))) =
      .ok loop)
    (hunrolled : Program.compile o l compileLimits
      ((List.replicate total ('(' :: (body ++ [')']))).flatten ++ behind) = .ok unrolled)
    (s : Subject) (flags : ExecFlags) (limits limits' : SearchLimits) (start capture capture' : Nat)
    (hlimit : WithinLimits ((Matcher.mk loop l s flags).execute limits start capture))
    (hlimit' : WithinLimits ((Matcher.mk unrolled l s flags).execute limits' start capture')) :
    ∃ found found', (Matcher.mk loop l s flags).execute limits start capture = .ok found ∧
      (Matcher.mk unrolled l s flags).execute limits' start capture' = .ok found' ∧
      (found.isSome = true → found'.isSome = true) ∧
      (total = 1 ∨ p.isNullable true true = false ∨ p.isNullable false true = true →
        found'.isSome = true → found.isSome = true) := by
  obtain ⟨p₁, hp₁, rfl⟩ := Program.exists_ofPattern hloop
  obtain ⟨p₂, hp₂, rfl⟩ := Program.exists_ofPattern hunrolled
  rw [ho] at hp hr hp₁ hp₂
  obtain rfl := Pattern.read_repeated hp hr hp₁
  obtain rfl := Pattern.read_copies hp hr hp₂
  have hshares : Shares
      ⟨.ofPattern ⟨o, l, compileLimits.run⟩ (.group p (.between total total) r), l, s, flags⟩
      ⟨.ofPattern ⟨o, l, compileLimits.run⟩ (p.copies total r), l, s, flags⟩ := ⟨rfl, rfl, rfl, rfl⟩
  refine ⟨_, _, execute_eq_firstFound rfl (Program.connected_of_compile hloop) hlimit,
    execute_eq_firstFound rfl (Program.connected_of_compile hunrolled) hlimit', ?_, ?_⟩
  · simp only [report, Option.isSome_map]
    exact isSome_firstFound_of_crosses hshares rfl rfl (crosses_copies hshares hprefs hrrefs htotal)
  · intro hempty
    simp only [report, Option.isSome_map]
    exact isSome_firstFound_of_crosses hshares.symm rfl rfl
      (crosses_loop hshares.symm hprefs hrrefs htotal hempty)

def anywhere : Pattern := .leaf (.char 'a') .once (.bar (.leaf (.char 'b') .star .done))

/-- The tree of `^|a`. -/
def somewhere : Pattern := .assert .lineStart (.bar (.leaf (.char 'a') .once .done))

def beforeB (p : Pattern → Pattern) (cs : List Char) : Matcher :=
  ⟨.ofPattern ⟨{ dialect := .extended }, .posix, 255⟩ (p (.leaf (.char 'b') .once .done)), .posix,
    .ofList cs, {}⟩

/-- Two iterations of `a|b*`, of which one can be empty, and the copies of both. -/
theorem execute_unrolled_anywhere :
    ∃ found found', (beforeB (.group anywhere (.between 2 2)) ['b', 'a', 'b']).execute {} 0 2 =
        .ok found ∧
      (beforeB (anywhere.copies 2) ['b', 'a', 'b']).execute {} 0 3 = .ok found' ∧
      (found.isSome = true → found'.isSome = true) ∧ (found'.isSome = true → found.isSome = true) ∧
      found = some ⟨[some ⟨0, 3⟩, some ⟨1, 2⟩]⟩ := by
  have hbody : Pattern.read .extended {} ['a', '|', 'b', '*'] = .ok anywhere := by decide
  have hbehind : Pattern.read .extended {} ['b'] = .ok (.leaf (.char 'b') .once .done) := by decide
  have hloop : Program.compile { dialect := .extended } .posix {} ('(' :: (['a', '|', 'b', '*'] ++
      (')' :: ((Repetition.between 2 2).suffix.toList ++ ['b'])))) =
      .ok (beforeB (.group anywhere (.between 2 2)) ['b', 'a', 'b']).program := by decide +kernel
  have hunrolled : Program.compile { dialect := .extended } .posix {}
      ((List.replicate 2 ('(' :: (['a', '|', 'b', '*'] ++ [')']))).flatten ++ ['b']) =
      .ok (beforeB (anywhere.copies 2) ['b', 'a', 'b']).program := by decide
  obtain ⟨found, found', hfound, hfound', h, h'⟩ := execute_unrolled rfl hbody hbehind rfl rfl
    (by decide) hloop hunrolled (.ofList ['b', 'a', 'b']) {} {} {} 0 2 3
    (.of_isOk (by decide +kernel)) (.of_isOk (by decide +kernel))
  refine ⟨found, found', hfound, hfound', h, h' (Or.inr (Or.inr rfl)), ?_⟩
  have hrun : (beforeB (.group anywhere (.between 2 2)) ['b', 'a', 'b']).execute {} 0 2 =
      .ok (some ⟨[some ⟨0, 3⟩, some ⟨1, 2⟩]⟩) := by
    decide +kernel
  exact Except.ok.inj (hfound.symm.trans hrun)

/-- The first iteration of `^|a` can be empty where the second one consumes something. The copies
match then, but the loop ends with the first iteration. -/
theorem not_execute_unrolled :
    Pattern.read .extended {} ['^', '|', 'a'] = .ok somewhere ∧ somewhere.refs = [] ∧
      Program.compile { dialect := .extended } .posix {}
        ['(', '^', '|', 'a', ')', '\x7b', '2', '\x7d', 'b'] =
        .ok (beforeB (.group somewhere (.between 2 2)) ['a', 'b']).program ∧
      Program.compile { dialect := .extended } .posix {}
        ['(', '^', '|', 'a', ')', '(', '^', '|', 'a', ')', 'b'] =
        .ok (beforeB (somewhere.copies 2) ['a', 'b']).program ∧
      (beforeB (.group somewhere (.between 2 2)) ['a', 'b']).execute {} 0 2 = .ok none ∧
      (beforeB (somewhere.copies 2) ['a', 'b']).execute {} 0 3 =
        .ok (some ⟨[some ⟨0, 2⟩, some ⟨0, 0⟩, some ⟨0, 1⟩]⟩) := by
  refine ⟨by decide, rfl, by decide, by decide, by decide +kernel, by decide +kernel⟩

end Matcher

end PosixRegex
