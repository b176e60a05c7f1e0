import PosixRegex.Proofs.Pattern.Scopes
import PosixRegex.Proofs.Program.Placement

namespace PosixRegex

structure Draft where
  complete : List (List Inst)
  current : List Inst
  /-- The literal characters that another one may join, last one first. -/
  pending : List Char

namespace Draft

variable {t : Target}

def last (t : Target) (d : Draft) : List Inst := d.current ++ t.flush d.pending

def write (t : Target) (code : List Inst) (d : Draft) : Draft :=
  { d with current := d.last t ++ code, pending := [] }

def char (t : Target) (c : Char) (d : Draft) : Draft :=
  if d.pending.length < t.run then { d with pending := c :: d.pending }
  else { d with current := d.last t, pending := [c] }

def bar (t : Target) (d : Draft) : Draft := ⟨d.complete ++ [d.last t], [], []⟩

@[simp] theorem complete_write (code : List Inst) (d : Draft) :
    (d.write t code).complete = d.complete := rfl

@[simp] theorem complete_char (c : Char) (d : Draft) : (d.char t c).complete = d.complete := by
  unfold char
  split <;> rfl

theorem last_char_of_pending {d : Draft} {x : Char} {xs : List Char} (hd : d.pending = x :: xs)
    (hlt : (x :: xs).length < t.run) (c : Char) : (d.char t c).last t =
      d.current ++ [.ofAtom (.consume (t.literal ((x :: xs).reverse ++ [c])))] := by
  rw [char, hd, if_pos hlt, last, Target.flush]
  simp

theorem last_char {d : Draft} (hd : d.pending = [] ∨ t.run ≤ d.pending.length) (c : Char) :
    (d.char t c).last t = d.last t ++ [.ofAtom (.consume (t.literal [c]))] := by
  unfold char
  split
  · rename_i hlt
    rw [hd.resolve_right (Nat.not_le.mpr hlt)]
    simp [last, Target.flush, hd.resolve_right (Nat.not_le.mpr hlt)]
  · simp [last, Target.flush]

@[simp] theorem last_write (code : List Inst) (d : Draft) :
    (d.write t code).last t = d.last t ++ code := by
  simp [write, last, Target.flush]

end Draft

def heads (g : Nat) (bs : List (List Inst)) : List Inst :=
  bs.flatMap fun b => .ofAtom (.branch (b.length + 2)) :: b ++ [.ofAtom (.join g)]

theorem heads_append (g : Nat) (bs cs : List (List Inst)) :
    heads g (bs ++ cs) = heads g bs ++ heads g cs :=
  List.flatMap_append

/-- The instructions in front of the current alternative. Its head, which it has if there are
others, does not know a distance yet. -/
def lead (g : Nat) : List (List Inst) → List Inst
  | [] => []
  | bs => heads g bs ++ [.ofAtom (.branch 0)]

theorem lead_of_ne_nil {g : Nat} {bs : List (List Inst)} (h : bs ≠ []) :
    lead g bs = heads g bs ++ [.ofAtom (.branch 0)] := by
  cases bs with
  | nil => exact absurd rfl h
  | cons b bs => rfl

def Draft.code (t : Target) (g : Nat) (d : Draft) : List Inst := lead g d.complete ++ d.last t

theorem chain_concat (g : Nat) (bs : List (List Inst)) (b : List Inst) :
    chain g (bs ++ [b]) =
      heads g bs ++ .ofAtom (.branch (b.length + 1)) :: b ++ [.ofAtom (.branch 0)] := by
  induction bs with
  | nil => rfl
  | cons first bs ih =>
    obtain ⟨second, others, hbs⟩ : ∃ second others, bs ++ [b] = second :: others :=
      List.exists_cons_of_ne_nil (by simp)
    rw [List.cons_append, hbs, chain, ← hbs, ih]
    · simp [heads]
    · simp

theorem link_concat (g : Nat) {bs : List (List Inst)} (hbs : bs ≠ []) (b : List Inst) :
    link g (bs ++ [b]) = chain g (bs ++ [b]) := by
  unfold link
  split
  · rename_i only heq
    have hlen := congrArg List.length heq
    have hpos := List.length_pos_iff.mpr hbs
    simp only [List.length_append, List.length_cons, List.length_nil] at hlen
    omega
  · rfl

theorem prepend_prepend (xs ys : List Inst) (bs : List (List Inst)) :
    prepend xs (prepend ys bs) = prepend (xs ++ ys) bs := by
  cases bs with
  | nil => rfl
  | cons b bs => simp [prepend]

namespace Pattern

variable {t : Target}

/-- The draft of a list of items, last one first. `n` is the number of the first group. -/
def draft (t : Target) (n : Nat) : Pattern → Draft
  | done => ⟨[], [], []⟩
  | leaf (.char c) .once rest => (rest.draft t n).char t c
  | leaf what times rest => (rest.draft t n).write t [⟨.consume (t.consumer what), times⟩]
  | assert what rest => (rest.draft t n).write t [.ofAtom (.assert what)]
  | group body times rest =>
    let g := n + rest.groupCount
    (rest.draft t n).write t
      (⟨.enter g, times⟩ :: link g (body.branches t (g + 1) []) ++ [⟨.leave g, times⟩])
  | bar rest => (rest.draft t n).bar t

theorem branches_ne_nil (n : Nat) (pending : List Char) (p : Pattern) :
    p.branches t n pending ≠ [] := by
  have hprepend : ∀ code bs, prepend code bs ≠ [] := by
    rintro code (_ | ⟨b, bs⟩) <;> simp [prepend]
  fun_induction branches t n pending p with
  | case1 | case7 => simp
  | case2 _ _ _ _ _ ih => exact ih
  | case3 | case4 | case5 | case6 => exact hprepend _ _

theorem prepend_nil_branches (n : Nat) (pending : List Char) (p : Pattern) :
    prepend [] (p.branches t n pending) = p.branches t n pending := by
  obtain ⟨b, bs, h⟩ := List.exists_cons_of_ne_nil (branches_ne_nil (t := t) n pending p)
  rw [h]
  rfl

theorem branches_reverseOnto (n : Nat) (p q : Pattern) :
    (p.reverseOnto q).branches t n [] = (p.draft t n).complete ++
      prepend (p.draft t n).current
        (q.branches t (n + p.groupCount) (p.draft t n).pending) := by
  fun_induction draft t n p generalizing q with
  | case1 => exact (prepend_nil_branches n [] q).symm
  | case2 c rest ih =>
    rw [reverseOnto, ih, branches, Draft.char]
    split
    · rfl
    · rw [prepend_prepend]
      rfl
  | case3 what times rest hnot ih =>
    rw [reverseOnto, ih, branches, prepend_prepend]
    · simp [Draft.write, Draft.last, groupCount]
    · exact hnot
  | case4 what rest ih =>
    rw [reverseOnto, ih, branches, prepend_prepend]
    simp [Draft.write, Draft.last, groupCount]
  | case5 body times rest g ih =>
    have hnext : g + 1 + body.groupCount = n + (body.group times rest).groupCount := by
      simp only [groupCount, g]
      omega
    rw [reverseOnto, ih, branches, prepend_prepend, ← hnext]
    simp [Draft.write, Draft.last, g]
  | case6 rest ih =>
    rw [reverseOnto, ih, branches]
    simp only [Draft.bar, List.append_assoc]
    rw [prepend_nil_branches]
    rfl

theorem branches_reverse (n : Nat) (p : Pattern) :
    p.reverse.branches t n [] = (p.draft t n).complete ++ [(p.draft t n).last t] := by
  rw [reverse, branches_reverseOnto, branches]
  rfl

end Pattern

namespace Draft

variable {t : Target} {g : Nat}

theorem code_write (code : List Inst) (d : Draft) :
    (d.write t code).code t g = d.code t g ++ code := by
  simp [Draft.code]

/-- The head of the alternative that a bar completes is written in front of it, unless it stands
there already. -/
theorem code_bar (d : Draft) :
    (d.bar t).code t g = heads g d.complete ++ .ofAtom (.branch ((d.last t).length + 2)) ::
      d.last t ++ [.ofAtom (.join g), .ofAtom (.branch 0)] := by
  simp [Draft.code, bar, lead_of_ne_nil, heads, last, Target.flush]

theorem link_branches (d : Draft) (hd : d.complete ≠ []) :
    link g (d.complete ++ [d.last t]) = heads g d.complete ++
      .ofAtom (.branch ((d.last t).length + 1)) :: d.last t ++ [.ofAtom (.branch 0)] := by
  rw [link_concat g hd, chain_concat]

end Draft

/-- Two lists of instructions differ in the repetition of the last item only. -/
inductive Requantified (old new : Repetition) : List Inst → List Inst → Prop
  | leaf (before : List Inst) (what : Consumer) : Requantified old new
      (before ++ [⟨.consume what, old⟩]) (before ++ [⟨.consume what, new⟩])
  | group (before body : List Inst) (g : Nat) : Requantified old new
      (before ++ ⟨.enter g, old⟩ :: body ++ [⟨.leave g, old⟩])
      (before ++ ⟨.enter g, new⟩ :: body ++ [⟨.leave g, new⟩])

namespace Requantified

variable {old new : Repetition} {xs ys : List Inst}

theorem length_eq (h : Requantified old new xs ys) : ys.length = xs.length := by
  cases h <;> simp

theorem exists_last (h : Requantified old new xs ys) :
    ∃ before i, xs = before ++ [i] ∧ i.times = old := by
  cases h with
  | leaf before what => exact ⟨before, _, rfl, rfl⟩
  | group before body g => exact ⟨_, _, rfl, rfl⟩

end Requantified

/-- The current alternative with the last character of the pending run on its own. -/
def Draft.split (t : Target) (d : Draft) : List Inst :=
  match d.pending with
  | c :: cs => d.current ++ t.flush cs ++ [.ofAtom (.consume (t.literal [c]))]
  | [] => d.current

theorem Draft.split_of_length_le {t : Target} {d : Draft} (hd : d.pending.length ≤ 1) :
    d.split t = d.last t := by
  unfold Draft.split Draft.last
  rcases hpending : d.pending with _ | ⟨x, _ | ⟨y, ys⟩⟩
  · simp [Target.flush]
  · simp [Target.flush]
  · simp [hpending] at hd

@[simp] theorem Draft.split_write (t : Target) (code : List Inst) (d : Draft) :
    (d.write t code).split t = d.last t ++ code := rfl

@[simp] theorem Draft.split_char (t : Target) (c : Char) (d : Draft) :
    (d.char t c).split t = d.last t ++ [.ofAtom (.consume (t.literal [c]))] := by
  unfold Draft.char
  split
  · rfl
  · simp [split, Target.flush]

theorem Target.literalLength?_consumer (t : Target) {what : Leaf} (hwhat : ∀ c, what ≠ .char c) :
    (t.consumer what).literalLength? = none := by
  cases what with
  | char c => exact absurd rfl (hwhat c)
  | any | backRef g =>
    simp only [consumer]
    split <;> rfl
  | bracket b =>
    simp only [consumer, Bracket.consumer]
    split <;> rfl

namespace Pattern

variable {t : Target} {p : Pattern} {n : Nat} {old times : Repetition}

theorem draft_leaf (what : Leaf) (h : (∀ c, what ≠ .char c) ∨ times ≠ .once) (rest : Pattern) :
    (leaf what times rest).draft t n =
      (rest.draft t n).write t [⟨.consume (t.consumer what), times⟩] := by
  rw [draft]
  rintro c rfl rfl
  exact h.elim (· c rfl) (· rfl)

theorem split_draft_leaf (what : Leaf) (times : Repetition) (rest : Pattern) :
    ((leaf what times rest).draft t n).complete = (rest.draft t n).complete ∧
    ((leaf what times rest).draft t n).split t =
      (rest.draft t n).last t ++ [⟨.consume (t.consumer what), times⟩] := by
  by_cases hchar : times = .once ∧ ∃ c, what = .char c
  · obtain ⟨rfl, c, rfl⟩ := hchar
    rw [draft, Draft.complete_char, Draft.split_char]
    exact ⟨rfl, rfl⟩
  · rw [draft, Draft.complete_write, Draft.split_write]
    · exact ⟨rfl, rfl⟩
    · rintro c rfl rfl
      exact hchar ⟨rfl, c, rfl⟩

def quantified? : Pattern → Option Repetition
  | leaf _ times _ | group _ times _ => some times
  | _ => none

theorem quantified?_of_operand : p.operand = .plain ∧ p.quantified? = some .once ∨
    (∃ old, p.operand = .repeated old ∧ p.quantified? = some old ∧ old ≠ .once) ∨
    (p.operand = .nothing ∨ p.operand = .assertion) ∧ p.quantified? = none := by
  cases p with
  | done | bar rest => exact Or.inr (Or.inr ⟨Or.inl rfl, rfl⟩)
  | assert what rest => exact Or.inr (Or.inr ⟨Or.inr rfl, rfl⟩)
  | leaf what times rest | group body times rest =>
    by_cases honce : times = .once
    · subst honce
      exact Or.inl ⟨rfl, rfl⟩
    · refine Or.inr (Or.inl ⟨times, ?_, rfl, honce⟩)
      simp [operand, Repetition.isOnce, honce]

theorem pending_draft (hp : p.quantified? ≠ some .once) : (p.draft t n).pending = [] := by
  cases p with
  | done | bar rest | assert what rest | group body times rest => rfl
  | leaf what times rest =>
    rw [draft_leaf what (Or.inr fun ho => hp (congrArg some ho)) rest]
    rfl

theorem last_draft (hp : p.quantified? = some .once) :
    (p.draft t n).pending ≠ [] ∨ ∃ before i, i.atom.literalLength? = none ∧
      (p.draft t n).pending = [] ∧ (p.draft t n).last t = before ++ [i] := by
  cases p with
  | done | bar rest | assert what rest => cases hp
  | leaf what times rest =>
    by_cases hchar : ∃ c, what = .char c
    · obtain rfl := Option.some.inj hp
      obtain ⟨c, rfl⟩ := hchar
      refine Or.inl ?_
      rw [draft, Draft.char]
      split <;> exact List.cons_ne_nil _ _
    · have hwhat : ∀ c, what ≠ .char c := not_exists.mp hchar
      rw [draft_leaf what (Or.inl hwhat) rest]
      exact Or.inr ⟨_, ⟨.consume _, times⟩, t.literalLength?_consumer hwhat, rfl,
        Draft.last_write _ _⟩
  | group body times rest =>
    let g := n + rest.groupCount
    refine Or.inr ⟨(rest.draft t n).last t ++ ⟨.enter g, times⟩ :: link g (body.branches t (g + 1) []),
      ⟨.leave g, times⟩, rfl, rfl, ?_⟩
    rw [draft, Draft.last_write]
    simp [g]

theorem requantified_setTimes (hp : p.quantified? = some old) (ho : times ≠ .once) :
    ((p.setTimes times).draft t n).complete = (p.draft t n).complete ∧
    ((p.setTimes times).draft t n).pending = [] ∧
    Requantified old times ((p.draft t n).split t) (((p.setTimes times).draft t n).last t) := by
  cases p with
  | done | bar rest | assert what rest => cases hp
  | leaf what times' rest =>
    obtain rfl := Option.some.inj hp
    obtain ⟨hcomplete, hsplit⟩ := split_draft_leaf (t := t) (n := n) what times' rest
    rw [setTimes, draft_leaf what (Or.inr ho) rest, hcomplete, hsplit, Draft.last_write]
    exact ⟨rfl, rfl, .leaf _ _⟩
  | group body times' rest =>
    obtain rfl := Option.some.inj hp
    refine ⟨rfl, rfl, ?_⟩
    rw [setTimes, draft, draft, Draft.split_write, Draft.last_write]
    simpa using Requantified.group ((rest.draft t n).last t) _ (n + rest.groupCount)

end Pattern

theorem Repetition.stack_ne_once {old times : Repetition} (hold : old ≠ .once)
    (htimes : times ≠ .once) : old.stack times ≠ .once := by
  unfold stack
  split
  · exact htimes
  · exact hold

theorem Token.ne_once_of_read {d : Dialect} {x : Char} {c after : Cursor} {token : Token}
    (h : read d x c = .ok (token, after)) : token ≠ .quantifier .once := by
  refine of_read (P := fun token => token ≠ .quantifier .once) (fun token htoken => htoken .once)
    nofun nofun (fun b times hb ho => ?_) h
  obtain rfl := Token.quantifier.inj ho
  unfold Bounds.repetition? at hb
  split at hb <;> split at hb <;> cases hb

theorem Reader.cases_of_quantify {d : Dialect} {r r' : Reader} {times : Repetition}
    (hr : r.quantify d times = .ok r') :
    r.scope.items.operand = .plain ∧ r.scope.items.quantified? = some .once ∧
      r' = r.push (Pattern.setTimes times) (if 1 < r.run then 1 else 0) 0 ∨
    ∃ old, r.scope.items.operand = .repeated old ∧ r.scope.items.quantified? = some old ∧
      old ≠ .once ∧ r' = r.push (Pattern.setTimes (old.stack times)) 0 0 := by
  unfold quantify at hr
  obtain ⟨hop, hq⟩ | ⟨old, hop, hq, hold⟩ | ⟨hop | hop, -⟩ :=
    Pattern.quantified?_of_operand (p := r.scope.items)
  · rw [hop] at hr
    cases hr
    exact Or.inl ⟨hop, hq, rfl⟩
  · rw [hop] at hr
    simp only at hr
    split at hr
    · cases hr
    · cases hr
      exact Or.inr ⟨old, hop, hq, hold, rfl⟩
  · rw [hop] at hr
    cases hr
  · rw [hop] at hr
    cases hr

namespace Scope

def draft (t : Target) (s : Scope) : Draft := s.items.draft t (s.group + 1)

def code (t : Target) (s : Scope) : List Inst := (s.draft t).code t s.group

def body (t : Target) (s : Scope) : List Inst :=
  link s.group (s.items.reverse.branches t (s.group + 1) [])

variable {t : Target} {s up : Scope}

theorem body_of_complete_eq_nil (h : (s.draft t).complete = []) : s.body t = s.code t := by
  rw [body, Pattern.branches_reverse, code, Draft.code]
  change link s.group ((s.draft t).complete ++ [(s.draft t).last t]) = _
  rw [h]
  rfl

/-- In the end the head of the last alternative learns the distance to the mark behind it. -/
theorem body_of_complete_ne_nil (h : (s.draft t).complete ≠ []) :
    s.body t = heads s.group (s.draft t).complete ++
      .ofAtom (.branch (((s.draft t).last t).length + 1)) :: (s.draft t).last t ++
        [.ofAtom (.branch 0)] := by
  rw [body, Pattern.branches_reverse, ← Draft.link_branches _ h]
  rfl

theorem code_group (hgroup : s.group = up.group + 1 + up.items.groupCount) :
    code t { up with items := .group s.items.reverse .once up.items } =
      up.code t ++ (.ofAtom (.enter s.group) :: s.body t ++ [.ofAtom (.leave s.group)]) := by
  rw [body, hgroup]
  exact Draft.code_write _ _

end Scope

/-- The instructions in front of group `g` inside of the scopes `outer`, innermost first. -/
def below (t : Target) : Nat → List Scope → List Inst
  | _, [] => []
  | g, up :: outer => below t up.group outer ++ up.code t ++ [.ofAtom (.enter g)]

namespace Reader

variable {d : Dialect} {r r' : Reader}

def written (t : Target) (r : Reader) : List Inst :=
  below t r.scope.group r.outer ++ r.scope.code t

theorem Holds.group_eq (h : r.Holds) {up : Scope} {outer : List Scope}
    (houter : r.outer = up :: outer) : r.scope.group = up.group + 1 + up.items.groupCount := by
  have hnested := h.nested.2.2
  rw [houter] at hnested
  exact hnested.2.1.symm

end Reader

end PosixRegex
