import PosixRegex.Proofs.Program.Assembler
import PosixRegex.Proofs.Program.WellFormed

namespace PosixRegex

variable {t : Target} {insts insts' xs ys : List Inst} {groups : List (Nat × Option Nat)}
  {xs' ys' : List (Nat × Option Nat)}

theorem cases_of_getElem?_concat {α : Type} {xs : List α} {x y : α} {k : Nat}
    (h : (xs ++ [x])[k]? = some y) : xs[k]? = some y ∨ k = xs.length ∧ x = y := by
  rw [List.getElem?_append] at h
  split at h
  · exact Or.inl h
  · obtain ⟨hk, hx⟩ := List.getElem?_eq_some_iff.mp h
    simp only [List.length_singleton, Nat.lt_one_iff] at hk
    refine Or.inr ⟨by omega, ?_⟩
    rwa [List.getElem_singleton] at hx

def Atom.isMarker : Atom → Bool
  | enter _ | leave _ => true
  | _ => false

/-- The table leads to the markers of the groups. -/
structure Marks (groups : List (Nat × Option Nat)) (insts : List Inst) : Prop where
  enter {pc g : Nat} {times : Repetition} (h : insts[pc]? = some ⟨.enter g, times⟩) :
    1 ≤ g ∧ groups[g]?.map Prod.fst = some pc
  leave {pc g : Nat} {times : Repetition} (h : insts[pc]? = some ⟨.leave g, times⟩) :
    1 ≤ g ∧ groups[g]?.map Prod.snd = some (some pc)

namespace Marks

theorem of_same (h : Marks groups insts)
    (hsame : ∀ (pc : Nat) (i : Inst), insts'[pc]? = some i → i.atom.isMarker = true →
      ∃ times, insts[pc]? = some (⟨i.atom, times⟩ : Inst)) : Marks groups insts' where
  enter hi := by
    obtain ⟨times, hi⟩ := hsame _ ⟨.enter _, _⟩ hi rfl
    exact h.enter hi
  leave hi := by
    obtain ⟨times, hi⟩ := hsame _ ⟨.leave _, _⟩ hi rfl
    exact h.leave hi

theorem append (h : Marks groups insts) {i : Inst} (hi : i.atom.isMarker = false) :
    Marks groups (insts ++ [i]) := by
  refine h.of_same fun pc j hj hmarker => ?_
  obtain hj | ⟨-, rfl⟩ := cases_of_getElem?_concat hj
  · exact ⟨j.times, hj⟩
  · rw [hi] at hmarker
    cases hmarker

theorem change {i j : Inst} (h : Marks groups (xs ++ i :: ys))
    (hj : j.atom.isMarker = true → j.atom = i.atom) : Marks groups (xs ++ j :: ys) := by
  refine h.of_same fun pc k hk hmarker => ?_
  rw [List.getElem?_append] at hk ⊢
  split at hk
  · rename_i hlt
    exact ⟨k.times, by rw [if_pos hlt, hk]⟩
  · rename_i hlt
    rw [if_neg hlt]
    cases hpc : pc - xs.length with
    | zero =>
      rw [hpc] at hk
      obtain rfl := Option.some.inj hk
      exact ⟨i.times, by rw [hj hmarker]; rfl⟩
    | succ n =>
      rw [hpc] at hk
      exact ⟨k.times, hk⟩

theorem replace {i j : Inst} (h : Marks groups (xs ++ i :: ys)) (hj : j.atom.isMarker = false) :
    Marks groups (xs ++ j :: ys) :=
  h.change fun hmarker => absurd (hj.symm.trans hmarker) Bool.false_ne_true

theorem getElem?_moveOn (pc : Nat) {g : Nat} (hg : 1 ≤ g) :
    (groups.take 1 ++ (groups.drop 1).map (Assembler.moveOn pc))[g]? =
      groups[g]?.map (Assembler.moveOn pc) := by
  obtain ⟨g, rfl⟩ : ∃ k, g = k + 1 := ⟨g - 1, by omega⟩
  cases groups with
  | nil => rfl
  | cons entry groups => simp

theorem open_moveOn (pc : Nat) {g : Nat} (hg : groups[g]?.map Prod.snd = some none) :
    (groups.take 1 ++ (groups.drop 1).map (Assembler.moveOn pc))[g]?.map Prod.snd = some none := by
  by_cases hpos : 1 ≤ g
  · obtain ⟨⟨start, stop?⟩, hget, hstop⟩ := Option.map_eq_some_iff.mp hg
    obtain rfl : stop? = none := hstop
    rw [getElem?_moveOn pc hpos, hget]
    rfl
  · obtain rfl : g = 0 := by omega
    cases groups with
    | nil => cases hg
    | cons entry groups => exact hg

/-- An instruction put in between moves on the markers behind it. -/
theorem insert {i : Inst} (h : Marks groups (xs ++ ys)) (hi : i.atom.isMarker = false) :
    Marks (groups.take 1 ++ (groups.drop 1).map (Assembler.moveOn xs.length)) (xs ++ i :: ys) := by
  have hold : ∀ {pc} {j : Inst}, (xs ++ i :: ys)[pc]? = some j → j.atom.isMarker = true →
      ∃ k, (xs ++ ys)[k]? = some j ∧ (if xs.length ≤ k then k + 1 else k) = pc := by
    intro pc j hj hmarker
    rw [List.getElem?_append] at hj
    split at hj
    · rename_i hlt
      exact ⟨pc, by rw [List.getElem?_append_left hlt, hj], if_neg (by omega)⟩
    · cases hpc : pc - xs.length with
      | zero =>
        rw [hpc] at hj
        obtain rfl := Option.some.inj hj
        rw [hi] at hmarker
        cases hmarker
      | succ n =>
        rw [hpc, List.getElem?_cons_succ] at hj
        refine ⟨xs.length + n, ?_, ?_⟩
        · rw [List.getElem?_append_right (by omega), Nat.add_sub_cancel_left, hj]
        · rw [if_pos (by omega)]
          omega
  refine ⟨fun hj => ?_, fun hj => ?_⟩
  · obtain ⟨k, hk, rfl⟩ := hold hj rfl
    obtain ⟨hg, hentry⟩ := h.enter hk
    obtain ⟨⟨start, stop?⟩, hget, rfl⟩ := Option.map_eq_some_iff.mp hentry
    refine ⟨hg, ?_⟩
    rw [getElem?_moveOn _ hg, hget]
    rfl
  · obtain ⟨k, hk, rfl⟩ := hold hj rfl
    obtain ⟨hg, hentry⟩ := h.leave hk
    obtain ⟨⟨start, stop?⟩, hget, rfl⟩ := Option.map_eq_some_iff.mp hentry
    refine ⟨hg, ?_⟩
    rw [getElem?_moveOn _ hg, hget]
    rfl

theorem openGroup (h : Marks groups insts) (hgroups : 1 ≤ groups.length) :
    Marks (groups ++ [(insts.length, none)]) (insts ++ [.ofAtom (.enter groups.length)]) := by
  have hold : ∀ {α : Type} {f : Nat × Option Nat → α} {g : Nat} {x : α},
      groups[g]?.map f = some x → (groups ++ [(insts.length, none)])[g]?.map f = some x := by
    intro α f g x hx
    obtain ⟨entry, hentry, rfl⟩ := Option.map_eq_some_iff.mp hx
    rw [List.getElem?_append_left (List.getElem?_eq_some_iff.mp hentry).1, hentry]
    rfl
  refine ⟨fun hj => ?_, fun hj => ?_⟩
  · obtain hj | ⟨rfl, heq⟩ := cases_of_getElem?_concat hj
    · exact ⟨(h.enter hj).1, hold (h.enter hj).2⟩
    · cases heq
      exact ⟨hgroups, by simp⟩
  · obtain hj | ⟨-, hj⟩ := cases_of_getElem?_concat hj
    · exact ⟨(h.leave hj).1, hold (h.leave hj).2⟩
    · cases hj

theorem closeGroup {start : Nat} (h : Marks (xs' ++ (start, none) :: ys') insts)
    (hg : 1 ≤ xs'.length) : Marks (xs' ++ (start, some insts.length) :: ys')
      (insts ++ [.ofAtom (.leave xs'.length)]) := by
  -- No entry changes but that of the group that is closed.
  have hother : ∀ {g}, g ≠ xs'.length → (xs' ++ (start, some insts.length) :: ys')[g]? =
      (xs' ++ (start, none) :: ys')[g]? := by
    intro g hne
    rw [List.getElem?_append, List.getElem?_append]
    split
    · rfl
    · obtain ⟨k, hk⟩ : ∃ k, g - xs'.length = k + 1 := ⟨g - xs'.length - 1, by omega⟩
      rw [hk]
      rfl
  refine ⟨fun {pc g times} hj => ?_, fun {pc g times} hj => ?_⟩
  · obtain hj | ⟨-, hj⟩ := cases_of_getElem?_concat hj
    · obtain ⟨hpos, hentry⟩ := h.enter hj
      refine ⟨hpos, ?_⟩
      by_cases hne : g = xs'.length
      · subst hne
        simpa using hentry
      · rw [hother hne, hentry]
    · cases hj
  · obtain hj | ⟨rfl, heq⟩ := cases_of_getElem?_concat hj
    · obtain ⟨hpos, hentry⟩ := h.leave hj
      refine ⟨hpos, ?_⟩
      by_cases hne : g = xs'.length
      · subst hne
        simp at hentry
      · rw [hother hne, hentry]
    · cases heq
      exact ⟨hg, by simp⟩

end Marks

/-- The frame of a scope whose instructions stand behind `base` others, where `complete` are the
alternatives before the current one. -/
structure Frame.Fits (base g : Nat) (complete : List (List Inst)) (f : Frame) : Prop where
  group : f.group = g
  start : f.start = base + (lead g complete).length
  head? : f.head? = if complete = [] then none else some (base + (heads g complete).length)

inductive Framed (t : Target) : List Scope → List Frame → Prop
  | nil : Framed t [] []
  | cons {s : Scope} {outer : List Scope} {f : Frame} {frames : List Frame}
      (hf : f.Fits (below t s.group outer).length s.group (s.draft t).complete)
      (h : Framed t outer frames) : Framed t (s :: outer) (f :: frames)

def OperandAt.behind (n : Nat) : Operand → OperandAt
  | .nothing => .nothing
  | .assertion => .assertion
  | .plain => .plain (n - 1)
  | .repeated _ => .repeated (n - 1)

theorem OperandAt.behind_concat (xs : List Inst) (i : Inst) :
    behind (xs ++ [i]).length .plain = .plain xs.length := by
  simp [behind]

def Reader.before (t : Target) (r : Reader) : List Inst :=
  below t r.scope.group r.outer ++ lead r.scope.group (r.scope.draft t).complete

theorem Reader.written_eq (t : Target) (r : Reader) :
    r.written t = r.before t ++ (r.scope.draft t).last t := by
  rw [written, before, Scope.code, Draft.code, List.append_assoc]

/-- The assembler has written what the reader holds. -/
structure Assembles (t : Target) (r : Reader) (a : Assembler) : Prop where
  insts : a.insts = r.written t
  framed : Framed t (r.scope :: r.outer) (a.frame :: a.outer)
  size : a.groups.length = r.groups + 1
  marks : Marks a.groups a.insts
  opened : ∀ g ∈ r.around, a.groups[g]?.map Prod.snd = some none
  operand : a.operand = .behind a.insts.length r.scope.items.operand

namespace Assembles

variable {d : Dialect} {limits : CompileLimits} {r r' : Reader} {a : Assembler}

theorem start (t : Target) : Assembles t .start .start where
  insts := rfl
  framed := .cons ⟨rfl, rfl, rfl⟩ .nil
  size := rfl
  marks := ⟨nofun, nofun⟩
  opened := by simp [Reader.start, Reader.around, Scope.empty, Assembler.start]
  operand := rfl

theorem push (h : Assembles t r a) {item : Pattern → Pattern} {size run : Nat}
    {insts : List Inst} {operand : OperandAt}
    (hcomplete : ((item r.scope.items).draft t (r.scope.group + 1)).complete =
      (r.scope.draft t).complete)
    (hinsts : insts = r.before t ++ ((item r.scope.items).draft t (r.scope.group + 1)).last t)
    (hmarks : Marks a.groups insts)
    (hoperand : operand = .behind insts.length (item r.scope.items).operand) :
    Assembles t (r.push item size run) { a with insts, operand } where
  insts := by
    rw [Reader.written_eq]
    simp only [Reader.before, Reader.push, Scope.draft] at hcomplete hinsts ⊢
    rw [hcomplete, hinsts]
  framed := by
    cases h.framed with
    | cons hf houter => exact .cons (hcomplete.symm ▸ hf) houter
  size := h.size
  marks := hmarks
  opened := h.opened
  operand := hoperand

theorem append (h : Assembles t r a) {item : Pattern → Pattern} {size run : Nat} {i : Inst}
    {operand : OperandAt}
    (hcomplete : ((item r.scope.items).draft t (r.scope.group + 1)).complete =
      (r.scope.draft t).complete)
    (hlast : ((item r.scope.items).draft t (r.scope.group + 1)).last t =
      (r.scope.draft t).last t ++ [i]) (hi : i.atom.isMarker = false)
    (hoperand : operand = .behind (a.insts.length + 1) (item r.scope.items).operand) :
    Assembles t (r.push item size run) { a.append i with operand } := by
  refine h.push hcomplete ?_ (h.marks.append hi) ?_
  · rw [Assembler.append, h.insts, Reader.written_eq, hlast, List.append_assoc]
  · rw [hoperand, Assembler.append, List.length_append, List.length_singleton]

theorem push_leaf (h : Assembles t r a) (what : Leaf) (hwhat : ∀ c, what ≠ .char c) :
    Assembles t (r.push (.leaf what .once) 1 0) (a.consume (t.consumer what)) := by
  have hdraft : (Pattern.leaf what .once r.scope.items).draft t (r.scope.group + 1) = _ :=
    Pattern.draft_leaf what (Or.inl hwhat) r.scope.items
  exact h.append (by rw [hdraft]; rfl) (by rw [hdraft, Draft.last_write]; rfl) rfl rfl

theorem leaf (h : Assembles t r a) (what : Leaf) (hwhat : ∀ c, what ≠ .char c)
    (hr : r.leaf d what = .ok r') : Assembles t r' (a.consume (t.consumer what)) := by
  obtain rfl := Reader.eq_push_of_leaf hr
  exact h.push_leaf what hwhat

theorem assert (h : Assembles t r a) (what : Assertion) :
    Assembles t (r.assert what) (a.assert what) :=
  h.append rfl (Draft.last_write _ _) rfl rfl

theorem insts_eq (h : Assembles t r a) : a.insts = r.before t ++ (r.scope.draft t).last t :=
  h.insts.trans (r.written_eq t)

theorem operand_plain (h : Assembles t r a) {i : Inst} (hop : r.scope.items.operand = .plain)
    (hinsts : a.insts = xs ++ [i]) : a.operand = .plain xs.length := by
  rw [h.operand, hop, hinsts, OperandAt.behind_concat]

theorem consume_char (h : Assembles t r a) {size run : Nat} {c : Char}
    (hfull : (r.scope.draft t).pending = [] ∨ t.run ≤ (r.scope.draft t).pending.length) :
    Assembles t (r.push (.leaf (.char c) .once) size run) (a.consume (t.literal [c])) :=
  h.append (Draft.complete_char c _) (Draft.last_char hfull c) rfl rfl

theorem operand_of_pending {p : Pattern} {n : Nat} (h : (p.draft t n).pending ≠ []) :
    p.operand = .plain := by
  have hq : p.quantified? = some .once := by
    by_contra hq
    exact h (Pattern.pending_draft hq)
  obtain ⟨hop, -⟩ | ⟨old, -, hold, hne⟩ | ⟨-, hnone⟩ := Pattern.quantified?_of_operand (p := p)
  · exact hop
  · exact absurd (Option.some.inj (hold.symm.trans hq)) hne
  · cases hnone.symm.trans hq

theorem char (h : Assembles t r a) {c : Char} (hr : r.char d limits c = .ok r') :
    ∃ a', a.char t c = some a' ∧ Assembles t r' a' := by
  obtain ⟨size, run, rfl⟩ := Reader.exists_push_of_char hr
  have hinsts := h.insts_eq
  cases hpending : (r.scope.draft t).pending with
  | nil =>
    refine ⟨_, ?_, h.consume_char (Or.inl hpending)⟩
    obtain ⟨hop, hq⟩ | ⟨old, hop, -⟩ | ⟨hop | hop, -⟩ :=
      Pattern.quantified?_of_operand (p := r.scope.items)
    · obtain hne | ⟨before, i, hi, -, hbefore⟩ :=
        Pattern.last_draft (t := t) (n := r.scope.group + 1) hq
      · exact absurd hpending hne
      · rw [show (r.scope.draft t).last t = before ++ [i] from hbefore, ← List.append_assoc] at hinsts
        exact Assembler.char_of_extend?_none hinsts (h.operand_plain hop hinsts)
          (Assembler.extend?_other hinsts hi)
    iterate 3 simp [Assembler.char, h.operand, hop, OperandAt.behind]
  | cons x xs =>
    have hop : r.scope.items.operand = .plain :=
      operand_of_pending (t := t) (n := r.scope.group + 1)
        fun hnil => List.cons_ne_nil x xs (hpending.symm.trans hnil)
    have hrun : (r.scope.draft t).last t =
        (r.scope.draft t).current ++ [.ofAtom (.consume (t.literal (x :: xs).reverse))] := by
      rw [Draft.last, hpending]
      rfl
    rw [hrun, ← List.append_assoc] at hinsts
    have hextend := Assembler.extend?_literal (c := c) hinsts (by simp)
    have hplain := h.operand_plain hop hinsts
    by_cases hlt : (x :: xs).length < t.run
    · rw [List.length_reverse, if_pos hlt] at hextend
      refine ⟨_, Assembler.char_of_extend?_some hinsts hplain hextend, h.push
        (Draft.complete_char c _) ?_ ((hinsts ▸ h.marks).replace rfl) ?_⟩
      · rw [List.append_assoc]
        exact congrArg (r.before t ++ ·) (Draft.last_char_of_pending hpending hlt c).symm
      · exact hplain.trans (OperandAt.behind_concat _ _).symm
    · rw [List.length_reverse, if_neg hlt] at hextend
      refine ⟨_, Assembler.char_of_extend?_none hinsts hplain hextend,
        h.consume_char (Or.inr ?_)⟩
      rw [hpending]
      exact Nat.not_lt.mp hlt

/-- The repetition is set where it belongs, for a group on both of its markers. -/
theorem setTimes_of_requantified {old new : Repetition} {last last' : List Inst}
    (hreq : Requantified old new last last') (hinsts : a.insts = xs ++ last)
    (hmarks : Marks a.groups a.insts) :
    a.setTimes new (a.insts.length - 1) = some { a with
      insts := xs ++ last'
      operand := .repeated (a.insts.length - 1) } ∧ Marks a.groups (xs ++ last') := by
  have hpc : ∀ {before : List Inst} {i : Inst}, a.insts = before ++ [i] →
      a.insts.length - 1 = before.length := by
    rintro before i hinsts
    rw [hinsts, List.length_append, List.length_singleton, Nat.add_sub_cancel]
  cases hreq with
  | leaf before what =>
    rw [← List.append_assoc] at hinsts
    rw [hpc hinsts, ← List.append_assoc]
    exact ⟨Assembler.setTimes_consume new hinsts, (hinsts ▸ hmarks).change fun _ => rfl⟩
  | group before body g =>
    rw [← List.append_assoc, ← List.append_assoc] at hinsts
    have hfirst : a.insts[(xs ++ before).length]? = some ⟨.enter g, old⟩ := by
      rw [hinsts]
      simp
    have hentry := (hmarks.enter hfirst).2
    rw [hpc hinsts, ← List.append_assoc, ← List.append_assoc]
    refine ⟨Assembler.setTimes_leave new hinsts hentry, ?_⟩
    have hstop : Marks a.groups (xs ++ before ++ ⟨.enter g, old⟩ :: body ++ [⟨.leave g, new⟩]) :=
      (hinsts ▸ hmarks).change fun _ => rfl
    rw [List.append_assoc, List.cons_append] at hstop ⊢
    exact hstop.change fun _ => rfl

theorem operand_setTimes {p : Pattern} {old times : Repetition} (hq : p.quantified? = some old)
    (htimes : times ≠ .once) : (p.setTimes times).operand = .repeated times := by
  cases p with
  | done | bar rest | assert what rest => cases hq
  | leaf what old' rest | group body old' rest =>
    simp [Pattern.setTimes, Pattern.operand, Repetition.isOnce, htimes]

theorem setTimes (h : Assembles t r a) {old times : Repetition}
    (hq : r.scope.items.quantified? = some old) (htimes : times ≠ .once)
    (hinsts : insts = r.before t ++ (r.scope.draft t).split t) (hmarks : Marks a.groups insts)
    (size run : Nat) : ∃ a', Assembler.setTimes times (insts.length - 1) { a with insts } = some a' ∧
      Assembles t (r.push (Pattern.setTimes times) size run) a' := by
  obtain ⟨hcomplete, -, hlast⟩ := Pattern.requantified_setTimes (t := t)
    (n := r.scope.group + 1) hq htimes
  obtain ⟨hset, hmarks'⟩ := setTimes_of_requantified (a := { a with insts }) hlast hinsts hmarks
  refine ⟨_, hset, h.push hcomplete rfl hmarks' ?_⟩
  rw [operand_setTimes hq htimes, OperandAt.behind, List.length_append, hlast.length_eq,
    ← List.length_append]
  exact congrArg (fun insts : List Inst => OperandAt.repeated (insts.length - 1)) hinsts

theorem split (h : Assembles t r a)
    (hq : r.scope.items.quantified? = some .once) :
    ∃ insts, a.split (a.insts.length - 1) = some ({ a with insts }, insts.length - 1) ∧
      insts = r.before t ++ (r.scope.draft t).split t ∧ Marks a.groups insts := by
  have hplain : ∀ {before : List Inst} {i : Inst}, a.insts = before ++ [i] →
      a.insts.length - 1 = before.length := by
    rintro before i hinsts
    rw [hinsts, List.length_append, List.length_singleton, Nat.add_sub_cancel]
  have hinsts := h.insts_eq
  -- An item that is not the end of a run stays where it is.
  have hwhole : ∀ {before : List Inst} {i : Inst}, a.insts = before ++ [i] →
      i.atom.literalLength?.any (1 < ·) = false → (r.scope.draft t).pending.length ≤ 1 →
      ∃ insts, a.split (a.insts.length - 1) = some ({ a with insts }, insts.length - 1) ∧
        insts = r.before t ++ (r.scope.draft t).split t ∧ Marks a.groups insts := by
    rintro before i hlast hi hpending
    refine ⟨a.insts, ?_, ?_, h.marks⟩
    · rw [hplain hlast]
      exact Assembler.split_of_length_le hlast hi
    · rw [Draft.split_of_length_le hpending, hinsts]
  rcases hpending : (r.scope.draft t).pending with _ | ⟨x, _ | ⟨y, ys⟩⟩
  · obtain hne | ⟨before, i, hi, -, hbefore⟩ :=
      Pattern.last_draft (t := t) (n := r.scope.group + 1) hq
    · exact absurd hpending hne
    · rw [show (r.scope.draft t).last t = before ++ [i] from hbefore, ← List.append_assoc] at hinsts
      exact hwhole hinsts (by rw [hi]; rfl) (by simp [hpending])
  · have hrun : (r.scope.draft t).last t =
        (r.scope.draft t).current ++ [.ofAtom (.consume (t.literal [x]))] := by
      rw [Draft.last, hpending]
      rfl
    rw [hrun, ← List.append_assoc] at hinsts
    have hone : (t.literal [x]).literalLength? = some 1 :=
      Consumer.literalLength?_literal t (List.cons_ne_nil x [])
    refine hwhole hinsts ?_ (by simp [hpending])
    simp [Inst.ofAtom, Atom.literalLength?, hone]
  · have hrun : (r.scope.draft t).last t = (r.scope.draft t).current ++
        [.ofAtom (.consume (t.literal ((y :: ys).reverse ++ [x])))] := by
      rw [Draft.last, hpending, ← List.reverse_cons]
      rfl
    have hsplit : (r.scope.draft t).split t = (r.scope.draft t).current ++
        [.ofAtom (.consume (t.literal (y :: ys).reverse))] ++
          [.ofAtom (.consume (t.literal [x]))] := by
      rw [Draft.split, hpending]
      rfl
    rw [hrun, ← List.append_assoc] at hinsts
    have hmarks : Marks a.groups (r.before t ++ (r.scope.draft t).current ++
        [.ofAtom (.consume (t.literal (y :: ys).reverse))]) :=
      (hinsts ▸ h.marks).replace rfl
    refine ⟨_, ?_, ?_, hmarks.append (i := .ofAtom (.consume (t.literal [x]))) rfl⟩
    · rw [hplain hinsts, Assembler.split_of_run hinsts (by simp)]
      simp [Nat.add_assoc]
    · rw [hsplit]
      simp only [List.append_assoc]

theorem quantify (h : Assembles t r a) {times : Repetition} (htimes : times ≠ .once)
    (hr : r.quantify d times = .ok r') :
    ∃ a', a.quantify times = some a' ∧ Assembles t r' a' := by
  obtain ⟨hop, hq, rfl⟩ | ⟨old, hop, hq, hold, rfl⟩ := Reader.cases_of_quantify hr
  · obtain ⟨insts, hsplit, hinsts, hmarks⟩ := h.split hq
    obtain ⟨a', hset, ha'⟩ := h.setTimes hq htimes hinsts hmarks (if 1 < r.run then 1 else 0) 0
    have hoperand : a.operand = .plain (a.insts.length - 1) := by rw [h.operand, hop]; rfl
    refine ⟨a', ?_, ha'⟩
    unfold Assembler.quantify
    rw [hoperand]
    simp only [hsplit, Option.bind_eq_bind, Option.bind_some]
    exact hset
  · have hpending : (r.scope.draft t).pending = [] :=
      Pattern.pending_draft fun ho => hold (Option.some.inj (hq.symm.trans ho))
    have hsplit : (r.scope.draft t).split t = (r.scope.draft t).last t :=
      Draft.split_of_length_le (by simp [hpending])
    obtain ⟨a', hset, ha'⟩ := h.setTimes hq (Repetition.stack_ne_once hold htimes)
      (h.insts_eq.trans (by rw [hsplit])) h.marks 0 0
    have hoperand : a.operand = .repeated (a.insts.length - 1) := by rw [h.operand, hop]; rfl
    refine ⟨a', ?_, ha'⟩
    obtain ⟨-, -, hlast⟩ := Pattern.requantified_setTimes (t := t) (n := r.scope.group + 1) hq htimes
    obtain ⟨before, i, hbefore, rfl⟩ := hlast.exists_last
    have hget : a.insts[a.insts.length - 1]? = some i := by
      rw [h.insts_eq, ← hsplit, show (r.scope.draft t).split t = before ++ [i] from hbefore,
        ← List.append_assoc, List.length_append, List.length_singleton, Nat.add_sub_cancel,
        List.getElem?_concat_length]
    unfold Assembler.quantify
    rw [hoperand]
    simp only [hget, Option.bind_eq_bind, Option.bind_some]
    exact hset

theorem openGroup (h : Assembles t r a) {offset : Nat} (hr : r.openGroup d offset = .ok r') :
    Assembles t r' a.openGroup := by
  obtain rfl := Reader.eq_of_openGroup hr
  have hwritten : a.insts ++ [.ofAtom (.enter a.groups.length)] =
      below t (r.groups + 1) (r.scope :: r.outer) := by
    rw [h.insts, h.size]
    rfl
  refine ⟨?_, .cons ⟨h.size, ?_, rfl⟩ h.framed, ?_, h.marks.openGroup (by rw [h.size]; omega), ?_, rfl⟩
  · refine hwritten.trans ?_
    simp [Reader.written, Scope.code, Scope.draft, Scope.empty, Pattern.draft, Draft.code, lead,
      Draft.last, Target.flush]
  · have hlength := congrArg List.length hwritten
    simpa [Assembler.openGroup, Scope.empty, Scope.draft, Pattern.draft, lead] using hlength
  · exact (List.length_append).trans (congrArg (· + 1) h.size)
  · refine List.forall_mem_cons.mpr ⟨?_, fun g hg => ?_⟩
    · change (a.groups ++ [(a.insts.length, none)])[r.groups + 1]?.map Prod.snd = some none
      rw [← h.size, List.getElem?_concat_length]
      rfl
    · obtain ⟨entry, hentry, hnone⟩ := Option.map_eq_some_iff.mp (h.opened g hg)
      change (a.groups ++ [(a.insts.length, none)])[g]?.map Prod.snd = some none
      rw [List.getElem?_append_left (List.getElem?_eq_some_iff.mp hentry).1, hentry]
      exact congrArg some hnone

/-- In the end the last head learns where the mark behind the alternatives stands. -/
theorem endAlternatives (h : Assembles t r a) : ∃ insts,
    a.endAlternatives = some { a with insts } ∧
      insts = below t r.scope.group r.outer ++ r.scope.body t ∧ Marks a.groups insts := by
  have hinsts := h.insts_eq
  cases h.framed with
  | cons hf houter =>
    by_cases hcomplete : (r.scope.draft t).complete = []
    · refine ⟨a.insts, ?_, ?_, h.marks⟩
      · rw [Assembler.endAlternatives, hf.head?, if_pos hcomplete]
      · rw [h.insts, Reader.written, Scope.body_of_complete_eq_nil hcomplete]
    · let front := below t r.scope.group r.outer ++ heads r.scope.group (r.scope.draft t).complete
      have hfront : a.insts ++ [.ofAtom (.branch 0)] = front ++
          .ofAtom (.branch 0) :: ((r.scope.draft t).last t ++ [.ofAtom (.branch 0)]) := by
        rw [hinsts, Reader.before, lead_of_ne_nil hcomplete]
        simp [front]
      have hhead : a.frame.head? = some front.length := by
        rw [hf.head?, if_neg hcomplete, List.length_append]
      have hlength : a.insts.length - front.length = ((r.scope.draft t).last t).length + 1 := by
        have hlength := congrArg List.length hfront
        simp only [List.length_append, List.length_cons, List.length_nil] at hlength ⊢
        omega
      have hmarks : Marks a.groups (a.insts ++ [.ofAtom (.branch 0)]) := h.marks.append rfl
      rw [hfront] at hmarks
      refine ⟨_, ?_, ?_, hmarks.replace (j := .ofAtom (.branch (a.insts.length - front.length))) rfl⟩
      · simp only [Assembler.endAlternatives, hhead]
        exact Assembler.link_append (a := a.append (.ofAtom (.branch 0))) hfront _
      · rw [hlength, Scope.body_of_complete_ne_nil hcomplete]
        simp [front]

theorem closeGroup (h : Assembles t r a) (hholds : r.Holds) (hr : r.closeGroup = .ok r') :
    ∃ a', a.closeGroup = some a' ∧ Assembles t r' a' := by
  obtain ⟨up, outer, houter, rfl⟩ := Reader.exists_of_closeGroup hr
  obtain ⟨insts, hend, hinsts, hmarks⟩ := h.endAlternatives
  have hframed := h.framed
  have hopened := h.opened
  have hnested := hholds.nested.2.2
  rw [Reader.around, houter] at hopened
  rw [houter] at hframed hnested
  obtain ⟨hg, hopened⟩ := List.forall_mem_cons.mp hopened
  obtain ⟨⟨start, stop?⟩, hget, hstop⟩ := Option.map_eq_some_iff.mp hg
  obtain rfl : stop? = none := hstop
  obtain ⟨earlier, later, hgroups, hlength⟩ := exists_append_of_getElem? hget
  have hgroup := hholds.group_eq houter
  cases hframed with
  | cons hf houterFramed =>
    generalize hframes : a.outer = frames at houterFramed
    cases houterFramed with
    | cons hfup hrest =>
      rename_i fup rest
      have hchange : change? a.groups a.frame.group (Assembler.closeAt insts.length) =
          some (earlier ++ (start, some insts.length) :: later) := by
        rw [hgroups, hf.group]
        exact change?_append hlength.symm _
      have hclose : a.closeGroup = some ⟨insts ++ [.ofAtom (.leave a.frame.group)],
          earlier ++ (start, some insts.length) :: later, fup, rest, .plain insts.length⟩ := by
        simp only [Assembler.closeGroup, hframes, hend, hchange, Assembler.append,
          Option.bind_eq_bind, Option.bind_some]
        rfl
      refine ⟨_, hclose, ?_, .cons hfup hrest, ?_, ?_, ?_, ?_⟩
      · change insts ++ [.ofAtom (.leave a.frame.group)] = _
        rw [hinsts, hf.group, houter]
        simp only [Reader.written, below]
        rw [Scope.code_group hgroup]
        simp
      · have hsize := h.size
        rw [hgroups] at hsize
        simpa using hsize
      · rw [hf.group, ← hlength]
        exact (hgroups ▸ hmarks).closeGroup (by omega)
      · intro g hg
        obtain ⟨entry, hentry, hnone⟩ := Option.map_eq_some_iff.mp (hopened g hg)
        have hlt : g < earlier.length := by
          rw [hlength]
          exact hnested.lt_of_mem hg
        rw [hgroups, List.getElem?_append_left hlt] at hentry
        change (earlier ++ (start, some insts.length) :: later)[g]?.map Prod.snd = some none
        rw [List.getElem?_append_left hlt, hentry]
        exact congrArg some hnone
      · exact (OperandAt.behind_concat _ _).symm

/-- The head of the current alternative stands in front of it, and the markers behind it have been
moved on. -/
theorem head (h : Assembles t r a) : ∃ a' front,
    a.head = some (front.length, a') ∧
    front = below t r.scope.group r.outer ++ heads r.scope.group (r.scope.draft t).complete ∧
    a'.insts = front ++ .ofAtom (.branch 0) :: (r.scope.draft t).last t ∧
    a'.frame = a.frame ∧ a'.outer = a.outer ∧ a'.groups.length = a.groups.length ∧
    Marks a'.groups a'.insts ∧
    ∀ g : Nat, a.groups[g]?.map Prod.snd = some none → a'.groups[g]?.map Prod.snd = some none := by
  have hinsts := h.insts_eq
  cases h.framed with
  | cons hf houter =>
    by_cases hcomplete : (r.scope.draft t).complete = []
    · have hstart : a.frame.start = (below t r.scope.group r.outer).length := by
        rw [hf.start, hcomplete]
        rfl
      rw [Reader.before, hcomplete] at hinsts
      simp only [lead, List.append_nil] at hinsts
      have hmarks := (hinsts ▸ h.marks).insert (i := .ofAtom (.branch 0)) rfl
      refine ⟨⟨_, _, a.frame, a.outer, a.operand⟩, below t r.scope.group r.outer, ?_, ?_, rfl, rfl,
        rfl, ?_, hmarks, fun g hg => Marks.open_moveOn _ hg⟩
      · rw [Assembler.head, hf.head?, if_pos hcomplete]
        simp only [hstart, Assembler.insert_append hinsts, Option.map_some]
      · rw [hcomplete]
        exact (List.append_nil _).symm
      · rw [List.length_append, List.length_map, ← List.length_append, List.take_append_drop]
    · refine ⟨a, _, ?_, rfl, ?_, rfl, rfl, rfl, h.marks, fun g hg => hg⟩
      · rw [Assembler.head, hf.head?, if_neg hcomplete, List.length_append]
      · rw [hinsts, Reader.before, lead_of_ne_nil hcomplete]
        simp

theorem bar (h : Assembles t r a) : ∃ a', a.bar = some a' ∧ Assembles t r.bar a' := by
  obtain ⟨a', front, hhead, hfront, hinsts, hframe, houter, hlength, hmarks, hopened⟩ := h.head
  cases h.framed with
  | cons hf hframed =>
    let last := (r.scope.draft t).last t
    let next := front.length + (last.length + 2)
    let tail : List Inst := last ++ [.ofAtom (.join r.scope.group), .ofAtom (.branch 0)]
    let joined := a'.append (.ofAtom (.join a'.frame.group))
    have hjoined : (joined.append (.ofAtom (.branch 0))).insts =
        front ++ .ofAtom (.branch 0) :: tail := by
      simp only [joined, Assembler.append]
      rw [hinsts, hframe, hf.group]
      simp [tail, last]
    have hnext : joined.insts.length = next := by
      simp only [joined, Assembler.append]
      rw [hinsts]
      simp [next, last]
    have hbar : a.bar = some { a' with
        insts := front ++ .ofAtom (.branch (last.length + 2)) :: tail
        frame := ⟨a'.frame.group, next + 1, some next⟩
        operand := .nothing } := by
      have hlink := Assembler.link_append hjoined next
      rw [← hnext] at hlink
      unfold Assembler.bar
      simp only [hhead, Option.bind_eq_bind, Option.bind_some]
      rw [hlink, hnext, Nat.add_sub_cancel_left]
      rfl
    have hmarks' : Marks a'.groups (front ++ .ofAtom (.branch 0) :: tail) := by
      rw [← hjoined]
      exact (hmarks.append rfl).append rfl
    have hheads : (below t r.scope.group r.outer).length +
        (heads r.scope.group ((r.scope.draft t).complete ++ [last])).length = next := by
      rw [heads_append, List.length_append, ← Nat.add_assoc, ← List.length_append, ← hfront]
      simp [heads, next]
    have hne : (r.scope.draft t).complete ++ [last] ≠ [] := by simp
    refine ⟨_, hbar, ?_, .cons ⟨?_, ?_, ?_⟩ ?_, hlength.trans h.size, hmarks'.replace rfl,
      fun g hg => hopened g (h.opened g hg), rfl⟩
    · change _ = below t r.scope.group r.outer ++ ((r.scope.draft t).bar t).code t r.scope.group
      rw [Draft.code_bar, hfront]
      simp [tail, last]
    · exact (congrArg Frame.group hframe).trans hf.group
    · change next + 1 = (below t r.scope.group r.outer).length +
        (lead r.scope.group ((r.scope.draft t).complete ++ [last])).length
      rw [lead_of_ne_nil hne, List.length_append, ← Nat.add_assoc, hheads]
      rfl
    · change some next = if (r.scope.draft t).complete ++ [last] = [] then none
        else some ((below t r.scope.group r.outer).length +
          (heads r.scope.group ((r.scope.draft t).complete ++ [last])).length)
      rw [if_neg hne, hheads]
    · exact houter ▸ hframed

theorem dollar (h : Assembles t r a) : Assembles t r.dollar (a.assert .lineEnd) := by
  obtain ⟨hinsts, hframed, hsize, hmarks, hopened, hoperand⟩ := h.assert .lineEnd
  cases hframed with
  | cons hf houter => exact ⟨hinsts, .cons hf houter, hsize, hmarks, hopened, hoperand⟩

/-- Every token that the reader accepts is written. -/
theorem step (h : Assembles t r a) (hholds : r.Holds) {offset : Nat} {token : Token}
    (htoken : token ≠ .quantifier .once)
    (hr : r.step t.options.dialect limits offset token = .ok r') :
    ∃ a', a.step t token = some a' ∧ Assembles t r' a' := by
  cases token with
  | char c => exact h.char hr
  | any => exact ⟨_, rfl, h.leaf .any (fun _ => nofun) hr⟩
  | bracket =>
    obtain ⟨-, -, hr⟩ := exists_of_bind_eq_ok
      (x := r.checkDollar t.options.dialect) (f := fun _ => .ok r) hr
    cases hr
    exact ⟨a, rfl, h⟩
  | backRef g =>
    change r.backRef t.options.dialect g = .ok r' at hr
    unfold Reader.backRef at hr
    split at hr
    · exact ⟨_, rfl, h.leaf (.backRef g) (fun _ => nofun) hr⟩
    · cases hr
  | word edge =>
    cases hr
    exact ⟨_, rfl, h.assert _⟩
  | star =>
    change r.star t.options.dialect limits = .ok r' at hr
    unfold Reader.star at hr
    simp only [Assembler.step, h.operand]
    cases hd : t.options.dialect with
    | basic =>
      cases hop : r.scope.items.operand with
      | nothing | assertion =>
        rw [hd, hop] at hr
        exact h.char hr
      | plain | repeated old =>
        rw [hd, hop] at hr
        exact h.quantify nofun hr
    | extended =>
      rw [hd] at hr
      exact h.quantify nofun hr
  | caret =>
    change r.caret t.options.dialect limits = .ok r' at hr
    unfold Reader.caret at hr
    simp only [Assembler.step, h.operand]
    cases hd : t.options.dialect with
    | basic =>
      cases hop : r.scope.items.operand with
      | nothing =>
        rw [hd, hop] at hr
        cases hr
        exact ⟨_, rfl, h.assert _⟩
      | assertion | plain | repeated old =>
        rw [hd, hop] at hr
        exact h.char hr
    | extended =>
      rw [hd] at hr
      cases hr
      exact ⟨_, rfl, h.assert _⟩
  | dollar =>
    cases hr
    exact ⟨_, rfl, h.dollar⟩
  | quantifier times =>
    exact h.quantify (fun htimes => htoken (congrArg Token.quantifier htimes)) hr
  | openGroup => exact ⟨_, rfl, h.openGroup hr⟩
  | closeGroup => exact h.closeGroup hholds hr
  | bar =>
    cases hr
    exact h.bar

end Assembles

theorem Marks.span_eq {p : Pattern} (h : Marks groups (p.code t)) {g : Nat} (hpos : 1 ≤ g)
    (hle : g ≤ p.groupCount) : ∃ start stop, groups[g]? = some (start, some stop) ∧
      (Program.ofPattern t p).groups[g]? = some ⟨start, stop⟩ := by
  have hmarked := Program.marked_ofPattern t p
  have hget : ∀ {pc : Nat} {i : Inst}, (p.code t)[pc]? = some i →
      (Program.ofPattern t p).insts[pc]? = some i := by
    intro pc i hi
    simpa [Program.ofPattern] using hi
  have hmem : g ∈ (p.code t).filterMap Inst.opens? ∧ g ∈ (p.code t).filterMap Inst.closes? := by
    rw [(Program.opens_code_perm t p).mem_iff, (Program.closes_code_perm t p).mem_iff,
      List.mem_range'_1, List.mem_range'_1]
    omega
  obtain ⟨⟨⟨atom, times⟩, hi, hopens⟩, ⟨⟨atom', times'⟩, hi', hcloses⟩⟩ :=
    And.imp List.mem_filterMap.mp List.mem_filterMap.mp hmem
  obtain ⟨start, hstart⟩ := List.mem_iff_getElem?.mp hi
  obtain ⟨stop, hstop⟩ := List.mem_iff_getElem?.mp hi'
  obtain rfl : atom = .enter g := by
    cases atom <;> simp_all [Inst.opens?]
  obtain rfl : atom' = .leave g := by
    cases atom' <;> simp_all [Inst.closes?]
    omega
  refine ⟨start, stop, ?_, hmarked.groups (hget hstart) (hget hstop)⟩
  obtain ⟨⟨start', stop?⟩, hentry, rfl⟩ := Option.map_eq_some_iff.mp (h.enter hstart).2
  have hleave := (h.leave hstop).2
  rw [hentry] at hleave ⊢
  exact congrArg (fun x => some (start', x)) (Option.some.inj hleave)

namespace Assembles

variable {r : Reader} {a : Assembler}

theorem finish (h : Assembles t r a) (hholds : r.Holds) (houter : r.outer = []) :
    a.finish = some ((Program.ofPattern t r.scope.items.reverse).insts.toList,
      (Program.ofPattern t r.scope.items.reverse).groups.toList) := by
  obtain ⟨insts, hend, hinsts, hmarks⟩ := h.endAlternatives
  have hnested := hholds.nested
  rw [houter] at hnested
  obtain ⟨-, hnext, hgroup⟩ := hnested
  have hgroup : r.scope.group = 0 := hgroup
  let p := r.scope.items.reverse
  have hcount : r.groups = p.groupCount := by
    rw [Pattern.groupCount_reverse]
    omega
  have hcode : insts ++ [.ofAtom .accept] = p.code t := by
    rw [hinsts, houter, Scope.body, hgroup]
    rfl
  have hm : Marks a.groups (p.code t) := hcode ▸ hmarks.append rfl
  obtain ⟨⟨start, stop?⟩, hzero, hopen⟩ :=
    Option.map_eq_some_iff.mp (h.opened r.scope.group List.mem_cons_self)
  obtain rfl : stop? = none := hopen
  rw [hgroup] at hzero
  obtain ⟨front, later, hgroups, hfront⟩ := exists_append_of_getElem? hzero
  obtain rfl : front = [] := List.length_eq_zero_iff.mp hfront
  have hchange : change? a.groups 0 (fun _ => (0, some insts.length)) =
      some ((0, some insts.length) :: later) := by
    rw [hgroups]
    exact change?_append rfl _
  have haccept : (Program.ofPattern t p).insts[insts.length]? = some (.ofAtom .accept) := by
    simp [Program.ofPattern, ← hcode]
  have hspans : ((0, some insts.length) :: later).map Assembler.span =
        (Program.ofPattern t p).groups.toList := by
    refine List.ext_getElem? fun g => ?_
    have htable : (Program.ofPattern t p).groups.toList[g]? = (Program.ofPattern t p).groups[g]? :=
      Array.getElem?_toList
    rw [htable]
    cases g with
    | zero => exact (Program.groups_zero_ofPattern haccept).symm
    | succ g =>
      have hlater : a.groups[g + 1]? = later[g]? := by
        rw [hgroups]
        rfl
      rw [List.map_cons, List.getElem?_cons_succ, List.getElem?_map, ← hlater]
      by_cases hle : g + 1 ≤ p.groupCount
      · obtain ⟨start, stop, hentry, hspan⟩ := hm.span_eq (Nat.succ_pos g) hle
        rw [hentry, hspan]
        rfl
      · rw [List.getElem?_eq_none (by rw [h.size]; omega),
          Array.getElem?_eq_none (by rw [Program.size_groups_ofPattern]; omega)]
        rfl
  simp only [Assembler.finish, hend, hchange, hspans, hcode, Option.bind_eq_bind, Option.bind_some]
  rfl

end Assembles

end PosixRegex
