import Mathlib.Data.List.Induction
import PosixRegex.Proofs.Pattern.Blame
import PosixRegex.Proofs.Pattern.Limits
import PosixRegex.Proofs.Pattern.Spelling
import PosixRegex.Proofs.Program.Placement

namespace PosixRegex

/-- What is open behind a sequence of tokens. -/
structure Nest where
  groups : Nat
  /-- The groups that are open, innermost first. The whole pattern is group zero. -/
  scopes : List Nat

namespace Nest

def step (n : Nest) : Token → Nest
  | .openGroup => ⟨n.groups + 1, (n.groups + 1) :: n.scopes⟩
  | .closeGroup => ⟨n.groups, n.scopes.tail⟩
  | _ => n

/-- Inner groups have larger numbers than outer ones, and no number is larger than that of the group
opened last. -/
structure Ordered (n : Nest) : Prop where
  descending : n.scopes.Pairwise (· > ·)
  bounded : ∀ s ∈ n.scopes, s ≤ n.groups

variable {n : Nest}

theorem Ordered.step (h : n.Ordered) (token : Token) : (n.step token).Ordered := by
  cases token with
  | openGroup =>
    have hnew : ∀ s ∈ n.scopes, s < n.groups + 1 := fun s hs => Nat.lt_succ_of_le (h.bounded s hs)
    refine ⟨List.pairwise_cons.mpr ⟨hnew, h.descending⟩, ?_⟩
    exact List.forall_mem_cons.mpr ⟨Nat.le_refl _, fun s hs => Nat.le_succ_of_le (h.bounded s hs)⟩
  | closeGroup => exact ⟨h.descending.tail, fun s hs => h.bounded s (List.mem_of_mem_tail hs)⟩
  | _ => exact h

theorem groups_le_step (n : Nest) (token : Token) : n.groups ≤ (n.step token).groups := by
  cases token with
  | openGroup => exact Nat.le_succ _
  | _ => exact Nat.le_refl _

theorem lt_of_mem_step {token : Token} {s : Nat} (hs : s ∉ n.scopes)
    (h : s ∈ (n.step token).scopes) : n.groups < s := by
  cases token with
  | openGroup =>
    obtain rfl | h := List.mem_cons.mp h
    · exact Nat.lt_succ_self _
    · exact absurd h hs
  | closeGroup => exact absurd (List.mem_of_mem_tail h) hs
  | _ => exact absurd h hs

end Nest

def nestOf (ts : List Token) : Nest := ts.foldl Nest.step ⟨0, [0]⟩

def scopesOf (ts : List Token) : List Nat := (nestOf ts).scopes

/-- The token at `i` is `token`, directly in the scope `s`. Where a group is closed `s` is that
group. -/
def StandsIn (ts : List Token) (i : Nat) (token : Token) (s : Nat) : Prop :=
  ts[i]? = some token ∧ (scopesOf (ts.take i)).head? = some s

/-- The scope `s` was open behind the token at `i` and has had a bar of its own since. -/
def Barred (ts : List Token) (i s : Nat) : Prop :=
  s ∈ scopesOf (ts.take (i + 1)) ∧ ∃ j, i < j ∧ StandsIn ts j .bar s

section

variable {ts : List Token} {token token' : Token} {i j s g : Nat}

theorem nestOf_concat (ts : List Token) (token : Token) :
    nestOf (ts ++ [token]) = (nestOf ts).step token :=
  List.foldl_append

theorem ordered_nestOf (ts : List Token) : (nestOf ts).Ordered := by
  induction ts using List.reverseRecOn with
  | nil => exact ⟨List.pairwise_singleton _ _, fun s hs => Nat.le_of_eq (List.mem_singleton.mp hs)⟩
  | append_singleton ts token ih =>
    rw [nestOf_concat]
    exact ih.step token

theorem groups_take_le (ts : List Token) (i : Nat) :
    (nestOf (ts.take i)).groups ≤ (nestOf ts).groups := by
  induction ts using List.reverseRecOn generalizing i with
  | nil => exact Nat.le_of_eq (by rw [List.take_nil])
  | append_singleton ts token ih =>
    rcases Nat.lt_or_ge ts.length i with hi | hi
    · rw [List.take_of_length_le (by simpa using Nat.succ_le_of_lt hi)]
    · rw [List.take_append_of_le_length hi, nestOf_concat]
      exact Nat.le_trans (ih i) (Nest.groups_le_step _ token)

theorem succ_not_mem_scopesOf (ts : List Token) (i : Nat) :
    (nestOf ts).groups + 1 ∉ scopesOf (ts.take i) := by
  intro h
  have hle := (ordered_nestOf _).bounded _ h
  have := groups_take_le ts i
  omega

theorem StandsIn.lt (h : StandsIn ts i token s) : i < ts.length :=
  (List.getElem?_eq_some_iff.mp h.1).1

theorem StandsIn.mem (h : StandsIn ts i token s) : s ∈ scopesOf (ts.take i) :=
  List.mem_of_mem_head? h.2

theorem standsIn_concat : StandsIn (ts ++ [token]) i token' s ↔
    StandsIn ts i token' s ∨ i = ts.length ∧ token = token' ∧ (scopesOf ts).head? = some s := by
  unfold StandsIn
  rcases Nat.lt_trichotomy i ts.length with hi | rfl | hi
  · rw [List.getElem?_append_left hi, List.take_append_of_le_length (Nat.le_of_lt hi)]
    simp [Nat.ne_of_lt hi]
  · simp
  · rw [List.getElem?_eq_none (by simpa using Nat.succ_le_of_lt hi),
      List.getElem?_eq_none (Nat.le_of_lt hi)]
    simp [Nat.ne_of_gt hi]

theorem barred_concat (hi : i < ts.length) : Barred (ts ++ [token]) i s ↔
    Barred ts i s ∨
      s ∈ scopesOf (ts.take (i + 1)) ∧ token = .bar ∧ (scopesOf ts).head? = some s := by
  unfold Barred
  rw [List.take_append_of_le_length hi, ← and_or_left]
  refine and_congr_right fun _ => ?_
  simp only [standsIn_concat]
  constructor
  · rintro ⟨j, hj, h | ⟨-, h⟩⟩
    · exact Or.inl ⟨j, hj, h⟩
    · exact Or.inr h
  · rintro (⟨j, hj, h⟩ | h)
    · exact ⟨j, hj, Or.inl h⟩
    · exact ⟨_, hi, Or.inr ⟨rfl, h⟩⟩

theorem not_barred_last : ¬Barred (ts ++ [token]) ts.length s := by
  rintro ⟨-, j, hj, h⟩
  have := h.lt
  rw [List.length_append, List.length_singleton] at this
  omega

theorem not_mem_of_closed (h : StandsIn ts i .closeGroup g) : g ∉ scopesOf ts := by
  induction ts using List.reverseRecOn with
  | nil => cases h.1
  | append_singleton ts token ih =>
    intro hg
    unfold scopesOf at hg
    rw [nestOf_concat] at hg
    obtain h | ⟨rfl, rfl, hhead⟩ := standsIn_concat.mp h
    · have hlt := Nest.lt_of_mem_step (ih h) hg
      have hle := (ordered_nestOf _).bounded _ h.mem
      have := groups_take_le ts i
      omega
    · -- The group that is closed is smaller than none of the scopes that remain.
      obtain ⟨outer, houter⟩ := List.head?_eq_some_iff.mp hhead
      have hscopes : (nestOf ts).scopes = g :: outer := houter
      have hdescending := (ordered_nestOf ts).descending
      simp only [Nest.step, hscopes, List.tail_cons] at hg
      rw [hscopes] at hdescending
      exact Nat.lt_irrefl g (List.rel_of_pairwise_cons hdescending hg)

theorem StandsIn.take (h : StandsIn ts i token s) (hj : i < j) :
    StandsIn (ts.take j) i token s := by
  refine ⟨(List.getElem?_take_of_lt hj).trans h.1, ?_⟩
  rw [List.take_take, Nat.min_eq_left (Nat.le_of_lt hj)]
  exact h.2

theorem eq_of_closed (h : StandsIn ts i .closeGroup g) (h' : StandsIn ts j .closeGroup g) :
    i = j := by
  rcases Nat.lt_trichotomy i j with hij | hij | hij
  · exact absurd h'.mem (not_mem_of_closed (h.take hij))
  · exact hij
  · exact absurd h.mem (not_mem_of_closed (h'.take hij))

/-- The group `g` has been closed where no scope of `late` was open yet, and none of the scopes
`around` has had a bar since. -/
def Kept (ts : List Token) (late around : List Nat) (g : Nat) : Prop :=
  ∃ i, StandsIn ts i .closeGroup g ∧ (∀ s ∈ late, s ∉ scopesOf (ts.take (i + 1))) ∧
    ∀ s ∈ around, ¬Barred ts i s

variable {late around : List Nat}

theorem kept_concat : Kept (ts ++ [token]) late around g ↔
    (∃ i, StandsIn ts i .closeGroup g ∧ (∀ s ∈ late, s ∉ scopesOf (ts.take (i + 1))) ∧
      ∀ s ∈ around, ¬Barred ts i s ∧
        (token = .bar → (scopesOf ts).head? = some s → s ∉ scopesOf (ts.take (i + 1)))) ∨
    token = .closeGroup ∧ (scopesOf ts).head? = some g ∧
      ∀ s ∈ late, s ∉ scopesOf (ts ++ [token]) := by
  constructor
  · rintro ⟨i, hclosed, hlate, haround⟩
    obtain hclosed | ⟨rfl, htoken, hhead⟩ := standsIn_concat.mp hclosed
    · rw [List.take_append_of_le_length hclosed.lt] at hlate
      refine Or.inl ⟨i, hclosed, hlate, fun s hs => ?_⟩
      have hbarred := haround s hs
      rw [barred_concat hclosed.lt, not_or] at hbarred
      exact ⟨hbarred.1, fun htoken hhead hopen => hbarred.2 ⟨hopen, htoken, hhead⟩⟩
    · rw [List.take_of_length_le (by simp)] at hlate
      exact Or.inr ⟨htoken, hhead, hlate⟩
  · rintro (⟨i, hclosed, hlate, haround⟩ | ⟨htoken, hhead, hlate⟩)
    · refine ⟨i, standsIn_concat.mpr (Or.inl hclosed), ?_, fun s hs => ?_⟩
      · rwa [List.take_append_of_le_length hclosed.lt]
      · rw [barred_concat hclosed.lt, not_or]
        exact ⟨(haround s hs).1, fun h => (haround s hs).2 h.2.1 h.2.2 h.1⟩
    · refine ⟨ts.length, standsIn_concat.mpr (Or.inr ⟨rfl, htoken, hhead⟩), ?_,
        fun s _ => not_barred_last⟩
      rwa [List.take_of_length_le (by simp)]

/-- Only the end of a group and the bars of its own scopes matter. -/
theorem kept_concat_of_ne (hclose : token ≠ .closeGroup)
    (hbar : token = .bar → ∀ s ∈ around, (scopesOf ts).head? ≠ some s) :
    Kept (ts ++ [token]) late around g ↔ Kept ts late around g := by
  rw [kept_concat, or_iff_left fun h => hclose h.1]
  refine exists_congr fun i => and_congr_right fun _ => and_congr_right fun _ => ?_
  refine forall₂_congr fun s hs => ?_
  exact and_iff_left fun htoken hhead => absurd hhead (hbar htoken s hs)

theorem kept_close {closing : Nat} (hhead : (scopesOf ts).head? = some closing) :
    Kept (ts ++ [.closeGroup]) late around g ↔ Kept ts late around g ∨
      g = closing ∧ ∀ s ∈ late, s ∉ scopesOf (ts ++ [.closeGroup]) := by
  rw [kept_concat, hhead, Option.some.injEq]
  simp only [reduceCtorEq, false_implies, and_true, true_and, eq_comm (a := g), Kept]

theorem kept_bar (hhead : (scopesOf ts).head? = some s) (hs : s ∉ around) :
    Kept (ts ++ [.bar]) [] (s :: around) g ↔ Kept ts [s] around g := by
  rw [kept_concat, or_iff_left fun h => nomatch h.1]
  refine exists_congr fun i => and_congr_right fun _ => ?_
  simp only [List.forall_mem_cons, List.not_mem_nil, false_implies, implies_true, true_implies,
    true_and, and_true, hhead, Option.some.injEq]
  constructor
  · rintro ⟨⟨-, hlate⟩, haround⟩
    exact ⟨hlate, fun s' hs' => (haround s' hs').1⟩
  · rintro ⟨hlate, haround⟩
    refine ⟨⟨fun hbarred => hlate hbarred.1, hlate⟩, fun s' hs' => ⟨haround s' hs', ?_⟩⟩
    rintro rfl
    exact absurd hs' hs

theorem kept_of_fresh (hs : ∀ i, s ∉ scopesOf (ts.take i)) :
    (Kept ts late (s :: around) g ↔ Kept ts late around g) ∧
      (Kept ts (s :: late) around g ↔ Kept ts late around g) := by
  have hbarred : ∀ i, ¬Barred ts i s := fun i h => hs _ h.1
  constructor
  · refine exists_congr fun i => and_congr_right fun _ => and_congr_right fun _ => ?_
    exact List.forall_mem_cons.trans (and_iff_right (hbarred i))
  · refine exists_congr fun i => and_congr_right fun _ => and_congr_left fun _ => ?_
    exact List.forall_mem_cons.trans (and_iff_right (hs _))

/-- The lists of the scopes, innermost first, and the groups known outside of them say which groups
are kept. Where the innermost scope ends, those of its complete alternatives are known too. -/
def Accounts (ts : List Token) : (known : Nat → Prop) → List Scope → Prop
  | known, [] => ∀ g, known g ↔ Kept ts [] [] g
  | known, s :: outer =>
    (∀ g, known g ↔ Kept ts [] (s.group :: outer.map Scope.group) g) ∧
    (∀ g, g ∈ s.closedBefore ↔ Kept ts [s.group] (outer.map Scope.group) g) ∧
    Accounts ts (fun g => known g ∨ g ∈ s.closedInBranches) outer

variable {known known' : Nat → Prop} {scopes : List Scope}

theorem Accounts.congr (h : Accounts ts known scopes) (hknown : ∀ g, known' g ↔ known g) :
    Accounts ts known' scopes := by
  obtain rfl : known' = known := funext fun g => propext (hknown g)
  exact h

theorem Accounts.known_iff (h : Accounts ts known scopes) :
    known g ↔ Kept ts [] (scopes.map Scope.group) g := by
  cases scopes with
  | nil => exact h g
  | cons s outer => exact h.1 g

/-- Other tokens than the end of a group and the bars of the scopes themselves are not noticed. -/
theorem Accounts.concat (h : Accounts ts known scopes) (hclose : token ≠ .closeGroup)
    (hbar : token = .bar → ∀ s ∈ scopes.map Scope.group, (scopesOf ts).head? ≠ some s) :
    Accounts (ts ++ [token]) known scopes := by
  induction scopes generalizing known with
  | nil => exact fun g => (h g).trans (kept_concat_of_ne hclose hbar).symm
  | cons s outer ih =>
    obtain ⟨hknown, hbefore, houter⟩ := h
    have hbar' : token = .bar → ∀ s ∈ outer.map Scope.group, (scopesOf ts).head? ≠ some s :=
      fun htoken s' hs' => hbar htoken s' (List.mem_cons_of_mem _ hs')
    exact ⟨fun g => (hknown g).trans (kept_concat_of_ne hclose hbar).symm,
      fun g => (hbefore g).trans (kept_concat_of_ne hclose hbar').symm, ih houter hbar'⟩

theorem Accounts.close {closing : Nat} (h : Accounts ts known scopes)
    (hhead : (scopesOf ts).head? = some closing)
    (hopen : ∀ s ∈ scopes.map Scope.group, s ∈ scopesOf (ts ++ [.closeGroup])) :
    Accounts (ts ++ [.closeGroup]) (fun g => known g ∨ g = closing) scopes := by
  have hkept : ∀ {around : List Nat} {g : Nat},
      Kept (ts ++ [.closeGroup]) [] around g ↔ Kept ts [] around g ∨ g = closing :=
    (kept_close hhead).trans (or_congr_right (and_iff_left fun _ hs => nomatch hs))
  induction scopes generalizing known with
  | nil => exact fun g => (or_congr_left (h g)).trans hkept.symm
  | cons s outer ih =>
    obtain ⟨hknown, hbefore, houter⟩ := h
    obtain ⟨hs, hopen⟩ := List.forall_mem_cons.mp hopen
    refine ⟨fun g => ?_, fun g => ?_, (ih houter hopen).congr fun g => or_right_comm⟩
    · exact (or_congr_left (hknown g)).trans hkept.symm
    · rw [kept_close hhead, hbefore g, or_iff_left]
      exact fun hclosing => hclosing.2 s.group (List.mem_singleton_self _) hs

end

namespace Reader

variable {d : Dialect} {limits : CompileLimits} {r r' : Reader} {ts : List Token} {token : Token}

theorem mem_foldl_addNew {ns ms : List Nat} {g : Nat} :
    g ∈ ms.foldl addNew ns ↔ g ∈ ns ∨ g ∈ ms := by
  induction ms generalizing ns with
  | nil => simp
  | cons m ms ih =>
    have hone : g ∈ addNew ns m ↔ g ∈ ns ∨ g = m := by
      unfold addNew
      split
      · rename_i hm
        refine ⟨Or.inl, fun h => h.elim id fun heq => ?_⟩
        exact heq ▸ List.contains_iff_mem.mp hm
      · simp
    rw [List.foldl_cons, ih, hone, List.mem_cons, or_assoc]

def itemless (r : Reader) : Reader :=
  { r with scope := { r.scope with items := .done, dollar := false }, size := 0, run := 0 }

theorem itemless_quantify {times : Repetition} (h : r.quantify d times = .ok r') :
    r'.itemless = r.itemless := by
  obtain ⟨times', size, rfl⟩ := exists_push_of_quantify h
  rfl

theorem itemless_char {c : Char} (h : r.char d limits c = .ok r') : r'.itemless = r.itemless := by
  obtain ⟨size, run, rfl⟩ := exists_push_of_char h
  rfl

theorem itemless_leaf {what : Leaf} (h : r.leaf d what = .ok r') : r'.itemless = r.itemless := by
  obtain rfl := eq_push_of_leaf h
  rfl

theorem itemless_step {offset : Nat} (h : r.step d limits offset token = .ok r')
    (hopen : token ≠ .openGroup) (hclose : token ≠ .closeGroup) (hbar : token ≠ .bar) :
    r'.itemless = r.itemless := by
  cases moves_of_step h with
  | char h | starChar h | caretChar h => exact itemless_char h
  | any h | backRef _ h => exact itemless_leaf h
  | bracket | word | lineStart | dollar => rfl
  | star h | quantifier h => exact itemless_quantify h
  | openGroup => exact absurd rfl hopen
  | closeGroup => exact absurd rfl hclose
  | bar => exact absurd rfl hbar

/-- The reader stands behind the tokens `ts`: its scopes are those that they leave open, and its
lists say which groups are kept. -/
structure Records (ts : List Token) (r : Reader) : Prop where
  nest : nestOf ts = ⟨r.groups, r.around⟩
  accounts : Accounts ts (· ∈ r.closed) (r.scope :: r.outer)

theorem records_start : start.Records [] := by
  have hnone : ∀ late around g, ¬Kept [] late around g := by
    rintro late around g ⟨i, hclosed, -⟩
    exact absurd hclosed.lt (Nat.not_lt_zero i)
  refine ⟨rfl, fun g => ?_, fun g => ?_, fun g => ?_⟩
  · exact iff_of_false List.not_mem_nil (hnone _ _ g)
  · exact iff_of_false List.not_mem_nil (hnone _ _ g)
  · exact iff_of_false (fun h => h.elim List.not_mem_nil List.not_mem_nil) (hnone _ _ g)

namespace Records

variable (h : Records ts r)

include h

theorem scopesOf_eq : scopesOf ts = r.around := congrArg Nest.scopes h.nest

theorem head?_scopesOf : (scopesOf ts).head? = some r.scope.group := by
  rw [h.scopesOf_eq]
  rfl

theorem not_mem_outer : r.scope.group ∉ r.outer.map Scope.group := by
  intro hmem
  have hdescending := (ordered_nestOf ts).descending
  rw [h.nest] at hdescending
  exact Nat.lt_irrefl _ (List.rel_of_pairwise_cons hdescending hmem)

theorem mem_closed_iff {g : Nat} : g ∈ r.closed ↔ Kept ts [] (scopesOf ts) g := by
  rw [h.scopesOf_eq]
  exact h.accounts.1 g

theorem of_itemless (hsame : r'.itemless = r.itemless) : Records ts r' := by
  have hr : Records ts r.itemless := ⟨h.nest, h.accounts⟩
  rw [← hsame] at hr
  exact ⟨hr.nest, hr.accounts⟩

theorem other (hopen : token ≠ .openGroup) (hclose : token ≠ .closeGroup) (hbar : token ≠ .bar) :
    Records (ts ++ [token]) r := by
  refine ⟨?_, h.accounts.concat hclose fun htoken => absurd htoken hbar⟩
  rw [nestOf_concat, h.nest]
  cases token with
  | openGroup => exact absurd rfl hopen
  | closeGroup => exact absurd rfl hclose
  | _ => rfl

/-- What is kept at the start of a group is what may be referred to at the start of each of its
alternatives. -/
theorem openGroup {offset : Nat} (hr : r.openGroup d offset = .ok r') :
    Records (ts ++ [.openGroup]) r' := by
  obtain rfl := eq_of_openGroup hr
  have hfresh : ∀ i, r.groups + 1 ∉ scopesOf (ts.take i) := by
    intro i
    have hsucc := succ_not_mem_scopesOf ts i
    rwa [h.nest] at hsucc
  have haccounts : Accounts (ts ++ [.openGroup]) (· ∈ r.closed) (r.scope :: r.outer) :=
    h.accounts.concat nofun nofun
  have hkept : ∀ late around g, Kept (ts ++ [.openGroup]) late around g ↔ Kept ts late around g :=
    fun late around g => kept_concat_of_ne nofun nofun
  refine ⟨?_, fun g => ?_, fun g => ?_, haccounts.congr fun g => ?_⟩
  · rw [nestOf_concat, h.nest]
    rfl
  · exact (h.accounts.1 g).trans ((hkept _ _ g).trans (kept_of_fresh hfresh).1).symm
  · exact (h.accounts.1 g).trans ((hkept _ _ g).trans (kept_of_fresh hfresh).2).symm
  · exact or_iff_left List.not_mem_nil

/-- What has been closed in the alternatives of a group, and the group itself, is closed behind
it. -/
theorem closeGroup (hr : r.closeGroup = .ok r') : Records (ts ++ [.closeGroup]) r' := by
  obtain ⟨up, outer, houter, rfl⟩ := exists_of_closeGroup hr
  have hnest : nestOf (ts ++ [.closeGroup]) = ⟨r.groups, (up :: outer).map Scope.group⟩ := by
    rw [nestOf_concat, h.nest, around, houter]
    rfl
  have hopen : ∀ s ∈ (up :: outer).map Scope.group, s ∈ scopesOf (ts ++ [.closeGroup]) := by
    intro s hs
    rwa [scopesOf, hnest]
  have haccounts := h.accounts.2.2
  rw [houter] at haccounts
  have hclosed := (haccounts.close h.head?_scopesOf hopen).congr fun g => show
      g ∈ (r.scope.closedInBranches ++ [r.scope.group]).foldl addNew r.closed ↔ _ by
    rw [mem_foldl_addNew, List.mem_append, List.mem_singleton, or_assoc]
  exact ⟨hnest, hclosed⟩

/-- Behind a bar only what had been closed before the scope may be referred to. The other groups
are known again where the scope is closed. -/
theorem bar : Records (ts ++ [.bar]) r.bar := by
  have hhead := h.head?_scopesOf
  obtain ⟨-, hbefore, houter⟩ := h.accounts
  have hclose : Token.bar ≠ .closeGroup := nofun
  have hother : ∀ s ∈ r.outer.map Scope.group, (scopesOf ts).head? ≠ some s := by
    intro s hs heq
    rw [hhead] at heq
    cases heq
    exact h.not_mem_outer hs
  refine ⟨?_, fun g => ?_, fun g => ?_, (houter.concat hclose fun _ => hother).congr fun g => ?_⟩
  · rw [nestOf_concat, h.nest]
    rfl
  · exact (hbefore g).trans (kept_bar hhead h.not_mem_outer).symm
  · exact (hbefore g).trans (kept_concat_of_ne hclose fun _ => hother).symm
  · have hsub : g ∈ r.scope.closedBefore → g ∈ r.closed ∨ g ∈ r.scope.closedInBranches := by
      intro hg
      obtain ⟨i, hclosed, -, haround⟩ := (hbefore g).mp hg
      exact houter.known_iff.mpr ⟨i, hclosed, (fun _ hs => nomatch hs), haround⟩
    change g ∈ r.scope.closedBefore ∨ g ∈ r.closed.foldl addNew r.scope.closedInBranches ↔ _
    rw [mem_foldl_addNew, or_comm (a := g ∈ r.scope.closedInBranches)]
    exact or_iff_right_of_imp hsub

theorem step {offset : Nat} (hr : r.step d limits offset token = .ok r') :
    Records (ts ++ [token]) r' := by
  by_cases hopen : token = .openGroup
  · subst hopen
    exact h.openGroup hr
  by_cases hclose : token = .closeGroup
  · subst hclose
    exact h.closeGroup hr
  by_cases hbar : token = .bar
  · subst hbar
    cases hr
    exact h.bar
  · exact (h.other hopen hclose hbar).of_itemless (itemless_step hr hopen hclose hbar)

theorem readToken {x : Char} {offset : Nat} {c mid after : Cursor}
    (htoken : Token.read d x c = .ok (token, mid))
    (hr : r.readToken d limits x offset c = .ok (r', after)) : Records (ts ++ [token]) r' := by
  unfold Reader.readToken at hr
  obtain ⟨⟨token', c'⟩, ht, hr⟩ := exists_of_bind_eq_ok hr
  cases htoken.symm.trans (ok_of_mapError ht)
  obtain ⟨r₁, hstep, hr⟩ := exists_of_bind_eq_ok hr
  have h₁ := h.step (ok_of_mapError hstep)
  split at hr
  · obtain ⟨⟨b, last⟩, -, hr⟩ := exists_of_bind_eq_ok hr
    cases hr
    exact h₁.of_itemless rfl
  · cases hr
    exact h₁

end Records

/-- The reader `r` at `c` is what reading `text` leads to, behind the tokens `ts`. -/
inductive Reaches (d : Dialect) (limits : CompileLimits) (text : List Char) :
    List Token → Reader → Cursor → Prop
  | start : Reaches d limits text [] start (.ofList text)
  | next {ts : List Token} {r r' : Reader} {c mid after c' : Cursor} {x : Char} {token : Token}
      (h : Reaches d limits text ts r c) (hx : c.next? = some (x, mid))
      (htoken : Token.read d x mid = .ok (token, after))
      (hr : r.readToken d limits x c.offset mid = .ok (r', c'))
      (hsize : r'.size ≤ limits.instructions) :
      Reaches d limits text (ts ++ [token]) r' c'

variable {text : List Char} {c c' : Cursor}

theorem Reaches.records (h : Reaches d limits text ts r c) : Records ts r := by
  induction h with
  | start => exact records_start
  | next _ _ htoken hr _ ih => exact ih.readToken htoken hr

theorem Reaches.read_eq (h : Reaches d limits text ts r c) : ∃ steps, c.rest.length ≤ steps ∧
    Pattern.read d limits text = readAll d limits steps r c := by
  induction h with
  | start => exact ⟨text.length, Nat.le_refl _, rfl⟩
  | @next ts r r' c mid after c' x token _ hx _ hr hsize ih =>
    obtain ⟨steps, hsteps, hread⟩ := ih
    have hlength : c.rest.length = mid.rest.length + 1 :=
      congrArg List.length (Cursor.next?_eq_some hx).1
    obtain ⟨steps, rfl⟩ : ∃ k, steps = k + 1 := ⟨steps - 1, by omega⟩
    have hle := (bounds_of_readToken hr).2
    refine ⟨steps, by omega, hread.trans ?_⟩
    simp only [readAll, hx, hr, bind, Except.bind, if_neg (Nat.not_lt.mpr hsize)]

variable {after : Cursor} {x : Char} {mid : Cursor} {g : Nat}

theorem readToken_backRef_eq_error_iff (htoken : Token.read d x mid = .ok (.backRef g, after))
    (offset : Nat) :
    r.readToken d limits x offset mid = .error ⟨offset, .invalidBackReference⟩ ↔ g ∉ r.closed := by
  unfold readToken
  rw [htoken]
  simp only [Except.mapError, bind, Except.bind, step, backRef]
  by_cases hg : r.closed.contains g = true
  · rw [if_pos hg]
    refine iff_of_false (fun h => ?_) (not_not_intro (List.contains_iff_mem.mp hg))
    unfold leaf checkDollar at h
    by_cases hdollar : d = .extended ∧ r.scope.dollar = true
    · rw [if_pos hdollar] at h
      cases h
    · rw [if_neg hdollar] at h
      cases h
  · rw [if_neg hg]
    exact iff_of_true rfl fun hmem => hg (List.contains_iff_mem.mpr hmem)

/-- Reading ends at a reference exactly if its group is not closed on every way to it. -/
theorem readAll_eq_error_iff (hx : c.next? = some (x, mid))
    (htoken : Token.read d x mid = .ok (.backRef g, after)) (steps : Nat) :
    readAll d limits (steps + 1) r c = .error ⟨c.offset, .invalidBackReference⟩ ↔ g ∉ r.closed := by
  rw [← @readToken_backRef_eq_error_iff d limits r after x mid g htoken c.offset]
  simp only [readAll, hx]
  constructor
  · intro h
    cases hr : r.readToken d limits x c.offset mid with
    | error e =>
      rw [hr] at h
      cases h
      rfl
    | ok found =>
      obtain ⟨r', last⟩ := found
      rw [hr] at h
      simp only [bind, Except.bind] at h
      split at h
      · cases h
      · -- What is read behind the reference is blamed on what stands there.
        have hle := blamesFrom_readAll c.offset h
        have hlast := offset_le_of_readToken hr
        have hmid := (Cursor.next?_eq_some hx).2
        have hsize := x.utf8Size_pos
        omega
  · intro h
    rw [h]
    rfl

end Reader

theorem not_kept_iff {ts : List Token} {around : List Nat} {g : Nat} : ¬Kept ts [] around g ↔
    (∀ i, ¬StandsIn ts i .closeGroup g) ∨
      ∃ i, StandsIn ts i .closeGroup g ∧ ∃ s ∈ around, Barred ts i s := by
  constructor
  · intro h
    by_cases hclosed : ∃ i, StandsIn ts i .closeGroup g
    · obtain ⟨i, hi⟩ := hclosed
      refine Or.inr ⟨i, hi, ?_⟩
      by_contra hbarred
      exact h ⟨i, hi, (fun _ hs => nomatch hs), fun s hs hs' => hbarred ⟨s, hs, hs'⟩⟩
    · exact Or.inl (not_exists.mp hclosed)
  · rintro (h | ⟨i, hi, s, hs, hbarred⟩) ⟨j, hj, -, haround⟩
    · exact h j hj
    · obtain rfl := eq_of_closed hi hj
      exact haround s hs hbarred

/-- A reference that is reached is rejected exactly if its group has not been closed before, or if
some scope that was open where the group was closed, and still is, has had a bar of its own
since. -/
theorem Program.compile_backRef_eq_error_iff {o : Options} {limits : CompileLimits}
    {text rest : List Char} {ts : List Token} {r : Reader} {c : Cursor} {g : Nat} (l : Locale)
    (h : Reader.Reaches o.dialect limits text ts r c) (hg : 1 ≤ g ∧ g ≤ 9)
    (hc : c.rest = Leaf.print (.backRef g) ++ rest) :
    compile o l limits text = .error ⟨c.offset, .invalidBackReference⟩ ↔
      (∀ i, ¬StandsIn ts i .closeGroup g) ∨
        ∃ i, StandsIn ts i .closeGroup g ∧ ∃ s ∈ scopesOf ts, Barred ts i s := by
  obtain ⟨x, xs, hprint, htoken⟩ := @Token.reads_backRef o.dialect rest g hg
  rw [hprint] at hc
  have hx : c.next? = some (x, ⟨xs ++ rest, c.offset + x.utf8Size⟩) := by
    rw [Cursor.next?, hc]
    rfl
  obtain ⟨after, htoken⟩ : ∃ after, Token.read o.dialect x ⟨xs ++ rest, c.offset + x.utf8Size⟩ =
      .ok (.backRef g, after) := by
    obtain ⟨e, -, hok⟩ | ⟨⟨token, after⟩, token', hread, hok, heq⟩ :=
      cases_of_map_eq (htoken (c.offset + x.utf8Size))
    · cases hok
    · cases hok
      exact ⟨after, (Prod.mk.inj heq).1 ▸ hread⟩
  obtain ⟨steps, hsteps, hread⟩ := h.read_eq
  obtain ⟨steps, rfl⟩ : ∃ k, steps = k + 1 := ⟨steps - 1, by
    rw [hc] at hsteps
    simp only [List.cons_append, List.length_cons] at hsteps
    omega⟩
  rw [compile_eq_error_iff, hread, Reader.readAll_eq_error_iff hx htoken, h.records.mem_closed_iff,
    not_kept_iff]

/-- In `(a)|\1` the bar stands between the end of the group and the reference, in the whole
pattern. -/
theorem Program.compile_backRef_eq_error_iff_barred :
    (∃ r, Reader.Reaches .extended {} ['(', 'a', ')', '|', '\\', '1']
        ([] ++ [.openGroup] ++ [.char 'a'] ++ [.closeGroup] ++ [.bar]) r ⟨['\\', '1'], 4⟩) ∧
    compile { dialect := .extended } .posix {} ['(', 'a', ')', '|', '\\', '1'] =
      .error ⟨4, .invalidBackReference⟩ := by
  have hreaches : Reader.Reaches .extended {} ['(', 'a', ')', '|', '\\', '1']
      ([] ++ [.openGroup] ++ [.char 'a'] ++ [.closeGroup] ++ [.bar]) _ ⟨['\\', '1'], 4⟩ :=
    .next (.next (.next (.next .start rfl rfl rfl (by decide)) rfl rfl rfl (by decide)) rfl rfl rfl
      (by decide)) rfl rfl rfl (by decide)
  have htext : ['\\', '1'] = Leaf.print (.backRef 1) ++ [] := by decide
  have hiff := compile_backRef_eq_error_iff (o := { dialect := .extended }) .posix hreaches
    ⟨Nat.le_refl 1, by decide⟩ htext
  exact ⟨⟨_, hreaches⟩, hiff.mpr (Or.inr ⟨2, ⟨rfl, rfl⟩, 0, by decide, by decide, 3, by decide,
    rfl, rfl⟩)⟩

end PosixRegex
