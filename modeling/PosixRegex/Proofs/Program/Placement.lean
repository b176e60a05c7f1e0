import PosixRegex.Proofs.Program.Layout

namespace PosixRegex

namespace Inst

def opens? (i : Inst) : Option Nat :=
  match i.atom with
  | .enter g => some g
  | _ => none

/-- The group that an instruction closes; the last instruction closes the whole pattern. -/
def closes? (i : Inst) : Option Nat :=
  match i.atom with
  | .leave g => some g
  | .accept => some 0
  | _ => none

end Inst

open Program

theorem start_placeMarker (groups : Array GroupSpan) (i : Inst) (pc g : Nat) :
    (placeMarker groups i pc)[g]?.map GroupSpan.start =
      if i.opens? = some g then groups[g]?.map (fun _ => pc)
      else groups[g]?.map GroupSpan.start := by
  obtain ⟨atom, times⟩ := i
  cases atom <;> simp [placeMarker, Inst.opens?, Array.getElem?_modify] <;> grind

theorem stop_placeMarker (groups : Array GroupSpan) (i : Inst) (pc g : Nat) :
    (placeMarker groups i pc)[g]?.map GroupSpan.stop =
      if i.closes? = some g then groups[g]?.map (fun _ => pc)
      else groups[g]?.map GroupSpan.stop := by
  obtain ⟨atom, times⟩ := i
  cases atom <;> simp [placeMarker, Inst.closes?, Array.getElem?_modify] <;> grind

theorem size_placeMarker (groups : Array GroupSpan) (i : Inst) (pc : Nat) :
    (placeMarker groups i pc).size = groups.size := by
  unfold placeMarker
  split <;> simp

theorem size_foldl_placeMarker (placed : List (Inst × Nat)) (groups : Array GroupSpan) :
    (placed.foldl (fun groups x => placeMarker groups x.1 x.2) groups).size = groups.size := by
  induction placed generalizing groups with
  | nil => rfl
  | cons x placed ih => rw [List.foldl_cons, ih, size_placeMarker]

theorem exists_append_of_getElem? {α : Type} {xs : List α} {x : α} {k : Nat}
    (h : xs[k]? = some x) : ∃ before after, xs = before ++ x :: after ∧ before.length = k := by
  obtain ⟨hlt, hget⟩ := List.getElem?_eq_some_iff.mp h
  refine ⟨xs.take k, xs.drop (k + 1), ?_, List.length_take_of_le (Nat.le_of_lt hlt)⟩
  rw [← hget, List.getElem_cons_drop, List.take_append_drop]

section

variable {mark : Inst → Option Nat} {field : GroupSpan → Nat}
  (hplace : ∀ groups i pc g, (placeMarker groups i pc)[g]?.map field =
    if mark i = some g then groups[g]?.map (fun _ => pc) else groups[g]?.map field)

include hplace

theorem field_foldl_of_not_mem {g : Nat} (placed : List (Inst × Nat))
    (h : ∀ x ∈ placed, mark x.1 ≠ some g) (groups : Array GroupSpan) :
    (placed.foldl (fun groups x => placeMarker groups x.1 x.2) groups)[g]?.map field =
      groups[g]?.map field := by
  induction placed generalizing groups with
  | nil => rfl
  | cons x placed ih =>
    rw [List.foldl_cons, ih (fun y hy => h y (by simp [hy])), hplace, if_neg (h x (by simp))]

theorem field_groupSpans {insts : List Inst} {count pc g : Nat} {i : Inst}
    (hnodup : (insts.filterMap mark).Nodup) (hi : insts[pc]? = some i) (hm : mark i = some g)
    (hg : g ≤ count) : (groupSpans insts count)[g]?.map field = some pc := by
  obtain ⟨xs, ys, rfl, rfl⟩ := exists_append_of_getElem? hi
  have hys : ∀ x ∈ ys.zipIdx (xs.length + 1), mark x.1 ≠ some g := by
    intro x hx hxg
    have hxy : x.1 ∈ ys := List.fst_mem_of_mem_zipIdx hx
    rw [List.filterMap_append, List.filterMap_cons_some hm] at hnodup
    have hnot := (List.nodup_cons.mp (List.nodup_append.mp hnodup).2.1).1
    exact hnot (List.mem_filterMap.mpr ⟨x.1, hxy, hxg⟩)
  change ((xs ++ i :: ys).zipIdx.foldl (fun groups x => placeMarker groups x.1 x.2) _)[g]?.map
    field = _
  rw [List.zipIdx_append, List.zipIdx_cons, List.foldl_append, List.foldl_cons,
    field_foldl_of_not_mem hplace _ (by simpa using hys), hplace, if_pos hm]
  have hlt : g < ((xs.zipIdx).foldl (fun groups x => placeMarker groups x.1 x.2)
      (Array.replicate (count + 1) ⟨0, 0⟩)).size := by
    rw [size_foldl_placeMarker, Array.size_replicate]
    omega
  rw [Array.getElem?_eq_getElem hlt]
  simp

end

theorem flatten_prepend (code : List Inst) (bs : List (List Inst)) :
    (prepend code bs).flatten = code ++ bs.flatten := by
  cases bs with
  | nil => rfl
  | cons b bs => simp [prepend]

section

variable {α : Type} {mark : Inst → Option α}
  (hbranch : ∀ next times, mark ⟨.branch next, times⟩ = none)
  (hjoin : ∀ g times, mark ⟨.join g, times⟩ = none)

theorem filterMap_cons_toList (i : Inst) (is : List Inst) :
    (i :: is).filterMap mark = (mark i).toList ++ is.filterMap mark := by
  cases h : mark i <;> simp [h]

include hbranch hjoin in
theorem filterMap_chain (g : Nat) (bs : List (List Inst)) :
    (chain g bs).filterMap mark = bs.flatten.filterMap mark := by
  fun_induction chain g bs with
  | case1 => rfl
  | case2 last => simp [Inst.ofAtom, hbranch]
  | case3 first others _ ih => simp [Inst.ofAtom, hbranch, hjoin, ih]

include hbranch hjoin in
theorem filterMap_link (g : Nat) (bs : List (List Inst)) :
    (link g bs).filterMap mark = bs.flatten.filterMap mark := by
  unfold link
  split
  · simp
  · exact filterMap_chain hbranch hjoin g _

end

section

variable {mark : Inst → Option Nat} {t : Target}
  (hconsume : ∀ what times, mark ⟨.consume what, times⟩ = none)
  (hassert : ∀ what times, mark ⟨.assert what, times⟩ = none)
  (hbranch : ∀ next times, mark ⟨.branch next, times⟩ = none)
  (hjoin : ∀ g times, mark ⟨.join g, times⟩ = none)

include hconsume in
theorem filterMap_flush (pending : List Char) : (t.flush pending).filterMap mark = [] := by
  unfold Target.flush
  split
  · rfl
  · simp [Inst.ofAtom, hconsume]

include hconsume hassert hbranch hjoin in
theorem filterMap_branches_perm
    (hgroup : ∀ g times, (mark ⟨.enter g, times⟩).toList ++ (mark ⟨.leave g, times⟩).toList = [g])
    (next : Nat) (pending : List Char) (p : Pattern) :
    List.Perm ((p.branches t next pending).flatten.filterMap mark)
      (List.range' next p.groupCount) := by
  fun_induction Pattern.branches t next pending p with
  | case1 next pending => simp [filterMap_flush hconsume, Pattern.groupCount]
  | case2 next pending c rest _ ih => exact ih
  | case3 next pending c rest _ ih =>
    simpa [flatten_prepend, filterMap_flush hconsume, Pattern.groupCount] using ih
  | case4 next pending what times rest _ ih =>
    simpa [flatten_prepend, filterMap_flush hconsume, hconsume, Pattern.groupCount] using ih
  | case5 next pending what rest ih =>
    simpa [flatten_prepend, filterMap_flush hconsume, Inst.ofAtom, hassert, Pattern.groupCount]
      using ih
  | case6 next pending body times rest inner ihbody ihrest =>
    have hinner : List.Perm (inner.filterMap mark) (List.range' (next + 1) body.groupCount) := by
      rw [filterMap_link hbranch hjoin next]
      exact ihbody
    have hcode : (prepend (t.flush pending ++ ⟨.enter next, times⟩ :: inner ++
          [⟨.leave next, times⟩])
          (rest.branches t (next + 1 + body.groupCount) [])).flatten.filterMap mark =
        (mark ⟨.enter next, times⟩).toList ++ (inner.filterMap mark ++
          ((mark ⟨.leave next, times⟩).toList ++
            (rest.branches t (next + 1 + body.groupCount) []).flatten.filterMap mark)) := by
      simp only [flatten_prepend, List.filterMap_append, filterMap_flush hconsume,
        filterMap_cons_toList, List.filterMap_nil, List.nil_append, List.append_nil,
        List.append_assoc]
    have hrange : List.range' next (body.group times rest).groupCount =
        [next] ++ (List.range' (next + 1) body.groupCount ++
          List.range' (next + 1 + body.groupCount) rest.groupCount) := by
      rw [List.range'_append_1, List.singleton_append, ← List.range'_succ, Pattern.groupCount]
      congr 1
      omega
    rw [hcode, hrange, ← hgroup next times, List.append_assoc]
    refine List.Perm.append_left _ ?_
    refine List.perm_append_comm_assoc _ _ _ |>.trans ?_
    exact List.Perm.append_left _ (hinner.append ihrest)
  | case7 next pending rest ih =>
    simpa [filterMap_flush hconsume, Pattern.groupCount] using ih

end

namespace Program

def HasCode (prog : Program) (a : Nat) (code : List Inst) : Prop :=
  ∀ k i, code[k]? = some i → prog.insts[a + k]? = some i

structure Marked (prog : Program) : Prop where
  enter {pc g : Nat} {times : Repetition} (h : prog.insts[pc]? = some ⟨.enter g, times⟩) :
    prog.groups[g]?.map GroupSpan.start = some pc
  leave {pc g : Nat} {times : Repetition} (h : prog.insts[pc]? = some ⟨.leave g, times⟩) :
    prog.groups[g]?.map GroupSpan.stop = some pc

variable {prog : Program} {a : Nat}

theorem hasCode_append {xs ys : List Inst} :
    prog.HasCode a (xs ++ ys) ↔ prog.HasCode a xs ∧ prog.HasCode (a + xs.length) ys := by
  constructor
  · intro h
    refine ⟨fun k i hk => h k i ?_, fun k i hk => ?_⟩
    · rw [List.getElem?_append_left (List.getElem?_eq_some_iff.mp hk).1, hk]
    · rw [Nat.add_assoc]
      apply h
      rw [List.getElem?_append_right (by omega), Nat.add_sub_cancel_left, hk]
  · rintro ⟨hx, hy⟩ k i hk
    by_cases hlt : k < xs.length
    · rw [List.getElem?_append_left hlt] at hk
      exact hx k i hk
    · rw [List.getElem?_append_right (by omega)] at hk
      have := hy _ i hk
      rwa [show a + xs.length + (k - xs.length) = a + k by omega] at this

theorem hasCode_singleton {i : Inst} : prog.HasCode a [i] ↔ prog.insts[a]? = some i := by
  constructor
  · intro h
    exact h 0 i rfl
  · intro h k j hk
    obtain ⟨rfl, rfl⟩ : k = 0 ∧ i = j := by
      cases k <;> simp_all
    exact h

theorem hasCode_cons {i : Inst} {is : List Inst} :
    prog.HasCode a (i :: is) ↔ prog.insts[a]? = some i ∧ prog.HasCode (a + 1) is := by
  rw [← List.singleton_append, hasCode_append, hasCode_singleton]
  rfl

theorem Marked.groups {pc stop g : Nat} {times times' : Repetition} (hm : Marked prog)
    (he : prog.insts[pc]? = some ⟨.enter g, times⟩)
    (hl : prog.insts[stop]? = some ⟨.leave g, times'⟩) : prog.groups[g]? = some ⟨pc, stop⟩ := by
  obtain ⟨span, hspan, hstart⟩ := Option.map_eq_some_iff.mp (hm.enter he)
  have hstop := hm.leave hl
  rw [hspan] at hstop ⊢
  obtain ⟨start, stop'⟩ := span
  cases hstart
  cases hstop
  rfl

end Program

namespace Pattern

@[simp] theorem afterBar_chars (n : Nat) (cs : List Char) (rest : Pattern) :
    (chars cs rest).afterBar n = rest.afterBar n := by
  induction cs with
  | nil => rfl
  | cons c cs ih => exact ih

end Pattern

namespace Laid

variable {prog : Program} {t : Target} {a b n : Nat}

theorem of_flush {pending : List Char} {rest : Pattern} (hcode : prog.HasCode a (t.flush pending))
    (hrest : Laid prog t (.seq rest n) (a + (t.flush pending).length) b) :
    Laid prog t (.seq (.chars pending.reverse rest) n) a b := by
  cases pending with
  | nil => exact hrest
  | cons c cs => exact run (by simp) (hasCode_singleton.mp hcode) hrest

end Laid

/-- Each alternative is laid where its instructions stand, and so are those behind the first one
once they are connected. -/
structure Spreads (prog : Program) (t : Target) (n : Nat) (p : Pattern) (first : List Inst)
    (others : List (List Inst)) : Prop where
  first (a : Nat) (hcode : prog.HasCode a first) :
    Laid prog t (.seq p n) a (a + first.length)
  only (hp : p.afterBar n = none) : others = []
  others {n' : Nat} {q : Pattern} (hp : p.afterBar n = some (n', q)) :
    others ≠ [] ∧ ∀ (g a : Nat) (span : GroupSpan), prog.groups[g]? = some span →
      span.stop = a + (chain g others).length → prog.HasCode a (chain g others) →
      Laid prog t (.chain q n') a (a + (chain g others).length)

theorem chain_cons_cons (g : Nat) (first second : List Inst) (later : List (List Inst)) :
    chain g (first :: second :: later) =
      .ofAtom (.branch (first.length + 2)) :: first ++ .ofAtom (.join g) ::
        chain g (second :: later) := rfl

namespace Spreads

variable {prog : Program} {t : Target} {a g n : Nat} {p : Pattern} {first : List Inst}
  {others : List (List Inst)} {span : GroupSpan}

theorem chain (h : Spreads prog t n p first others) (hg : prog.groups[g]? = some span)
    (hstop : span.stop = a + (chain g (first :: others)).length)
    (hcode : prog.HasCode a (PosixRegex.chain g (first :: others))) :
    Laid prog t (.chain p n) a (a + (PosixRegex.chain g (first :: others)).length) := by
  cases hp : p.afterBar n with
  | none =>
    obtain rfl := h.only hp
    simp only [PosixRegex.chain, List.cons_append, hasCode_cons, hasCode_append] at hcode
    obtain ⟨hi, hfirst, he⟩ := hcode
    have hend : a + (PosixRegex.chain g [first]).length = a + 1 + first.length + 1 := by
      simp only [PosixRegex.chain, List.length_append, List.length_cons, List.length_nil]
      omega
    rw [hend]
    exact .last hp hi (by omega) (h.first _ hfirst) he.1
  | some following =>
    obtain ⟨n', q⟩ := following
    obtain ⟨hne, hothers⟩ := h.others hp
    obtain ⟨second, later, rfl⟩ := List.exists_cons_of_ne_nil hne
    rw [chain_cons_cons] at hcode hstop ⊢
    simp only [List.cons_append, hasCode_cons, hasCode_append] at hcode
    obtain ⟨hi, hfirst, hj, hchain⟩ := hcode
    simp only [List.cons_append, List.length_cons, List.length_append] at hstop ⊢
    have hlen : a + (first.length + ((PosixRegex.chain g (second :: later)).length + 1) + 1) =
        a + 1 + first.length + 1 + (PosixRegex.chain g (second :: later)).length := by
      omega
    rw [hlen] at hstop ⊢
    exact .more hp hi (by omega) (h.first _ hfirst) hj hg hstop
      (hothers g _ span hg hstop hchain)

theorem link (h : Spreads prog t n p first others) (hg : prog.groups[g]? = some span)
    (hstop : span.stop = a + (link g (first :: others)).length)
    (hcode : prog.HasCode a (PosixRegex.link g (first :: others))) :
    Laid prog t (.alts p n) a (a + (PosixRegex.link g (first :: others)).length) := by
  cases hp : p.afterBar n with
  | none =>
    obtain rfl := h.only hp
    exact .only hp (h.first a hcode)
  | some following =>
    obtain ⟨hne, -⟩ := h.others hp
    obtain ⟨second, later, rfl⟩ := List.exists_cons_of_ne_nil hne
    exact .headed (h.chain hg hstop hcode)

theorem prepend {q : Pattern} {n' : Nat} {code : List Inst}
    (h : Spreads prog t n' q first others)
    (hafter : p.afterBar n = q.afterBar n')
    (hlaid : ∀ a b, prog.HasCode a code → Laid prog t (.seq q n') (a + code.length) b →
      Laid prog t (.seq p n) a b) :
    Spreads prog t n p (code ++ first) others where
  first a hcode := by
    obtain ⟨hc, hf⟩ := hasCode_append.mp hcode
    rw [List.length_append, ← Nat.add_assoc]
    exact hlaid _ _ hc (h.first _ hf)
  only hp := h.only (hafter ▸ hp)
  others hp := h.others (hafter ▸ hp)

end Spreads

theorem spreads_branches {prog : Program} {t : Target} (hm : prog.Marked) (n : Nat)
    (pending : List Char) (p : Pattern) :
    ∃ first others, p.branches t n pending = first :: others ∧
      Spreads prog t n (.chars pending.reverse p) first others := by
  fun_induction Pattern.branches t n pending p with
  | case1 n pending =>
    refine ⟨_, _, rfl, fun a hcode => .of_flush hcode .done, fun _ => rfl, fun hp => ?_⟩
    simp [Pattern.afterBar] at hp
  | case2 n pending c rest _ ih =>
    rwa [List.reverse_cons, Pattern.chars_append] at ih
  | case3 n pending c rest _ ih =>
    obtain ⟨first, others, hb, h⟩ := ih
    rw [hb]
    exact ⟨_, _, rfl, h.prepend (Pattern.afterBar_chars _ _ _) fun a b => .of_flush⟩
  | case4 n pending what times rest _ ih =>
    obtain ⟨first, others, hb, h⟩ := ih
    rw [hb]
    refine ⟨_, _, rfl, h.prepend (Pattern.afterBar_chars _ _ _) fun a b hcode hrest => ?_⟩
    obtain ⟨hflush, hleaf⟩ := hasCode_append.mp hcode
    rw [List.length_append, ← Nat.add_assoc] at hrest
    exact .of_flush hflush (.leaf (hasCode_singleton.mp hleaf) hrest)
  | case5 n pending what rest ih =>
    obtain ⟨first, others, hb, h⟩ := ih
    rw [hb]
    refine ⟨_, _, rfl, h.prepend (Pattern.afterBar_chars _ _ _) fun a b hcode hrest => ?_⟩
    obtain ⟨hflush, hassert⟩ := hasCode_append.mp hcode
    rw [List.length_append, ← Nat.add_assoc] at hrest
    exact .of_flush hflush (.assert (hasCode_singleton.mp hassert) hrest)
  | case6 n pending body times rest inner ihbody ihrest =>
    obtain ⟨first, others, hb, h⟩ := ihrest
    obtain ⟨bodyFirst, bodyOthers, hbody, hspread⟩ := ihbody
    have hinner : inner = link n (bodyFirst :: bodyOthers) := congrArg (link n) hbody
    rw [hb]
    refine ⟨_, _, rfl, h.prepend (Pattern.afterBar_chars _ _ _) fun a b hcode hrest => ?_⟩
    rw [List.append_assoc, hasCode_append, List.cons_append, hasCode_cons, hasCode_append,
      hasCode_singleton] at hcode
    obtain ⟨hflush, henter, hcode, hleave⟩ := hcode
    -- The code of the body stands between the markers that the table names.
    have hg := hm.groups henter hleave
    rw [hinner] at hcode hleave hg
    have hstop := hspread.link hg rfl hcode
    refine .of_flush hflush (.group henter hstop hleave hg ?_)
    have hlen : a + (t.flush pending ++ (⟨.enter n, times⟩ : Inst) :: inner ++
        [(⟨.leave n, times⟩ : Inst)]).length =
        a + (t.flush pending).length + 1 + (link n (bodyFirst :: bodyOthers)).length + 1 := by
      simp only [hinner, List.length_append, List.length_cons, List.length_nil]
      omega
    exact hlen ▸ hrest
  | case7 n pending rest ih =>
    obtain ⟨first, others, hb, h⟩ := ih
    refine ⟨_, _, rfl, fun a hcode => .of_flush hcode .bar, fun hp => ?_, fun hp => ?_⟩
    · simp [Pattern.afterBar] at hp
    · obtain ⟨rfl, rfl⟩ : n = _ ∧ rest = _ := by simpa [Pattern.afterBar] using hp
      rw [hb]
      exact ⟨by simp, fun g a span hg hstop hcode => h.chain hg hstop hcode⟩

namespace Program

variable {t : Target} {p : Pattern}

theorem opens_code_perm (t : Target) (p : Pattern) :
    List.Perm ((p.code t).filterMap Inst.opens?) (List.range' 1 p.groupCount) := by
  have h : (p.code t).filterMap Inst.opens? =
      (p.branches t 1 []).flatten.filterMap Inst.opens? := by
    simp [Pattern.code, @filterMap_link Nat Inst.opens? (fun _ _ => rfl) (fun _ _ => rfl),
      Inst.opens?, Inst.ofAtom]
  rw [h]
  exact filterMap_branches_perm (fun _ _ => rfl) (fun _ _ => rfl) (fun _ _ => rfl)
    (fun _ _ => rfl) (fun _ _ => rfl) 1 [] p

theorem closes_code_perm (t : Target) (p : Pattern) :
    List.Perm ((p.code t).filterMap Inst.closes?) (List.range' 0 (p.groupCount + 1)) := by
  have h : (p.code t).filterMap Inst.closes? =
      (p.branches t 1 []).flatten.filterMap Inst.closes? ++ [0] := by
    simp [Pattern.code, @filterMap_link Nat Inst.closes? (fun _ _ => rfl) (fun _ _ => rfl),
      Inst.closes?, Inst.ofAtom]
  rw [h, List.range'_succ]
  refine (List.perm_append_singleton 0 _).trans (List.Perm.cons 0 ?_)
  exact filterMap_branches_perm (fun _ _ => rfl) (fun _ _ => rfl) (fun _ _ => rfl)
    (fun _ _ => rfl) (fun _ _ => rfl) 1 [] p

section

variable {mark : Inst → Option Nat} {field : GroupSpan → Nat}
  (hplace : ∀ groups i pc g, (placeMarker groups i pc)[g]?.map field =
    if mark i = some g then groups[g]?.map (fun _ => pc) else groups[g]?.map field)

include hplace in
theorem field_groups_ofPattern {first pc g : Nat} {i : Inst}
    (hperm : List.Perm ((p.code t).filterMap mark) (List.range' first (p.groupCount + 1 - first)))
    (hi : (ofPattern t p).insts[pc]? = some i) (hm : mark i = some g) :
    (ofPattern t p).groups[g]?.map field = some pc := by
  have hcode : (p.code t)[pc]? = some i := by simpa [ofPattern] using hi
  have hg : g ∈ List.range' first (p.groupCount + 1 - first) :=
    hperm.mem_iff.mp (List.mem_filterMap.mpr ⟨i, List.mem_of_getElem? hcode, hm⟩)
  rw [List.mem_range'_1] at hg
  exact field_groupSpans hplace (hperm.nodup_iff.mpr List.nodup_range') hcode hm (by omega)

end

theorem marked_ofPattern (t : Target) (p : Pattern) : (ofPattern t p).Marked where
  enter h := field_groups_ofPattern start_placeMarker (opens_code_perm t p) h rfl
  leave h := field_groups_ofPattern stop_placeMarker (closes_code_perm t p) h rfl

theorem size_groups_ofPattern (t : Target) (p : Pattern) :
    (ofPattern t p).groups.size = p.groupCount + 1 := by
  change (groupSpans (p.code t) p.groupCount).size = _
  rw [groupSpans, size_foldl_placeMarker, Array.size_replicate]

theorem laid_ofPattern (t : Target) (p : Pattern) :
    ∃ stop, Laid (ofPattern t p) t (.alts p 1) 0 stop ∧
      (ofPattern t p).insts[stop]? = some (.ofAtom .accept) ∧
      (ofPattern t p).insts.size = stop + 1 := by
  obtain ⟨first, others, hb, h⟩ := spreads_branches (marked_ofPattern t p) 1 [] p
  have hcode : p.code t = link 0 (first :: others) ++ [.ofAtom .accept] := by
    rw [Pattern.code, hb]
  have hinsts : ∀ k : Nat, (ofPattern t p).insts[k]? = (p.code t)[k]? := by
    simp [ofPattern]
  have haccept : (ofPattern t p).insts[(link 0 (first :: others)).length]? =
      some (.ofAtom .accept) := by
    rw [hinsts, hcode, List.getElem?_append_right (Nat.le_refl _), Nat.sub_self]
    rfl
  obtain ⟨span, hg, hstop⟩ := Option.map_eq_some_iff.mp
    (field_groups_ofPattern stop_placeMarker (closes_code_perm t p) haccept rfl)
  refine ⟨(link 0 (first :: others)).length, ?_, haccept, ?_⟩
  · have hlink := h.link (a := 0) hg (by omega) fun k i hk => by
      rw [Nat.zero_add, hinsts, hcode,
        List.getElem?_append_left (List.getElem?_eq_some_iff.mp hk).1, hk]
    rwa [Nat.zero_add] at hlink
  · simp [ofPattern, hcode]

theorem exists_ofPattern {o : Options} {l : Locale} {limits : CompileLimits} {text : List Char}
    {prog : Program} (h : compile o l limits text = .ok prog) :
    ∃ p, Pattern.read o.dialect limits text = .ok p ∧ prog = ofPattern ⟨o, l, limits.run⟩ p := by
  unfold compile at h
  cases hp : Pattern.read o.dialect limits text with
  | error e =>
    rw [hp] at h
    cases h
  | ok p =>
    rw [hp] at h
    exact ⟨p, rfl, (Except.ok.inj h).symm⟩

theorem compile_of_read {o : Options} {limits : CompileLimits} {text : List Char} {p : Pattern}
    (h : Pattern.read o.dialect limits text = .ok p) (l : Locale) :
    compile o l limits text = .ok (ofPattern ⟨o, l, limits.run⟩ p) := by
  rw [compile, h]
  rfl

theorem compile_eq_error_iff {o : Options} {l : Locale} {limits : CompileLimits}
    {text : List Char} {e : PatternError} :
    compile o l limits text = .error e ↔ Pattern.read o.dialect limits text = .error e := by
  cases h : Pattern.read o.dialect limits text with
  | error e' => simp [compile, h, bind, Except.bind]
  | ok p => simp [compile_of_read h]

end Program

end PosixRegex
