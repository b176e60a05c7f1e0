import PosixRegex.Proofs.Pattern.Nullable
import PosixRegex.Proofs.Pattern.Passage

namespace PosixRegex

namespace Pattern

def leaves : Pattern → List Leaf
  | done => []
  | leaf what _ rest => what :: rest.leaves
  | assert _ rest | bar rest => rest.leaves
  | group body _ rest => body.leaves ++ rest.leaves

theorem refs_eq_flatMap_leaves (p : Pattern) : p.refs = p.leaves.flatMap Leaf.refs := by
  induction p with
  | done => rfl
  | leaf what times rest ih => rw [refs, leaves, List.flatMap_cons, ih]
  | assert what rest ih | bar rest ih => exact ih
  | group body times rest ihbody ih => rw [refs, leaves, List.flatMap_append, ihbody, ih]

theorem refs_eq_nil_iff {p : Pattern} : p.refs = [] ↔ ∀ what ∈ p.leaves, what.refs = [] := by
  rw [refs_eq_flatMap_leaves, List.flatMap_eq_nil_iff]

theorem mem_leaves_reverseOnto {p k : Pattern} {what : Leaf} :
    what ∈ (p.reverseOnto k).leaves ↔ what ∈ p.leaves ∨ what ∈ k.leaves := by
  induction p generalizing k with
  | done => simp [reverseOnto, leaves]
  | leaf what' times rest ih =>
    rw [reverseOnto, ih]
    simp only [leaves, List.mem_cons]
    exact or_left_comm.trans or_assoc.symm
  | assert what rest ih | bar rest ih =>
    rw [reverseOnto, ih]
    rfl
  | group body times rest _ ih =>
    rw [reverseOnto, ih]
    simp only [leaves, List.mem_append]
    exact or_left_comm.trans or_assoc.symm

theorem mem_leaves_reverse {p : Pattern} {what : Leaf} :
    what ∈ p.reverse.leaves ↔ what ∈ p.leaves := by
  rw [reverse, mem_leaves_reverseOnto]
  simp [leaves]

theorem Proper.leaves {p : Pattern} {around : List Nat} {n : Nat} (h : p.Proper around n) :
    ∀ what ∈ p.leaves, what.Proper [] := by
  induction p generalizing around n with
  | done => exact fun _ hwhat => nomatch hwhat
  | leaf what times rest ih =>
    refine List.forall_mem_cons.mpr ⟨?_, ih h.2.2⟩
    cases what with
    | bracket b => exact h.1
    | backRef g => exact List.not_mem_nil
    | char | any => trivial
  | assert what rest ih | bar rest ih => exact ih h
  | group body times rest ihbody ih =>
    exact List.forall_mem_append.mpr ⟨ihbody h.1, ih h.2.2⟩

theorem leaves_setTimes (p : Pattern) (times : Repetition) :
    (p.setTimes times).leaves = p.leaves := by
  cases p <;> rfl

end Pattern

namespace Reader

variable {d : Dialect} {limits : CompileLimits} {r r' : Reader}

def leaves (r : Reader) : List Leaf := (r.scope :: r.outer).flatMap (·.items.leaves)

/-- No group is lost, the groups can still be numbered, and there is at most one item more. -/
structure Adds (added : Option Leaf) (r r' : Reader) : Prop where
  groups : r.groups ≤ r'.groups
  numbered (h : r.groups ≤ maxGroup) : r'.groups ≤ maxGroup
  leaves : ∀ what ∈ r'.leaves, what ∈ r.leaves ∨ added = some what

variable {added : Option Leaf}

theorem adds_push {item : Pattern → Pattern} (size run : Nat)
    (h : ∀ what ∈ (item r.scope.items).leaves, what ∈ r.scope.items.leaves ∨ added = some what) :
    Adds added r (r.push item size run) where
  groups := Nat.le_refl _
  numbered := id
  leaves := by
    intro what hwhat
    simp only [Reader.leaves, push, List.flatMap_cons, List.mem_append] at hwhat ⊢
    rcases hwhat with hwhat | hwhat
    · exact (h what hwhat).imp_left Or.inl
    · exact Or.inl (Or.inr hwhat)

theorem adds_push_of_eq {item : Pattern → Pattern} (size run : Nat)
    (h : (item r.scope.items).leaves = r.scope.items.leaves) :
    Adds added r (r.push item size run) :=
  adds_push size run fun _ hwhat => Or.inl (h ▸ hwhat)

theorem adds_push_leaf (what : Leaf) (size run : Nat) :
    Adds (some what) r (r.push (.leaf what .once) size run) :=
  adds_push size run fun _ hwhat =>
    (List.mem_cons.mp hwhat).elim (fun heq => Or.inr (heq ▸ rfl)) Or.inl

theorem adds_char {c : Char} (hr : r.char d limits c = .ok r') :
    Adds (some (.char c)) r r' := by
  obtain ⟨size, run, rfl⟩ := exists_push_of_char hr
  exact adds_push_leaf _ size run

theorem adds_leaf {what : Leaf} (hr : r.leaf d what = .ok r') : Adds (some what) r r' := by
  obtain rfl := eq_push_of_leaf hr
  exact adds_push_leaf _ _ _

theorem adds_quantify {times : Repetition} (hr : r.quantify d times = .ok r') :
    Adds added r r' := by
  obtain ⟨times', size, rfl⟩ := exists_push_of_quantify hr
  exact adds_push_of_eq _ _ (Pattern.leaves_setTimes _ _)

theorem adds_openGroup {offset : Nat} (hr : r.openGroup d offset = .ok r') : Adds added r r' := by
  have hroom := lt_maxGroup_of_openGroup hr
  obtain rfl := eq_of_openGroup hr
  exact ⟨Nat.le_succ _, fun _ => hroom, fun _ hwhat => Or.inl hwhat⟩

theorem adds_closeGroup (hr : r.closeGroup = .ok r') : Adds added r r' := by
  obtain ⟨up, outer, hup, rfl⟩ := exists_of_closeGroup hr
  refine ⟨Nat.le_refl _, id, fun what hwhat => Or.inl ?_⟩
  simpa [Reader.leaves, Pattern.leaves, Pattern.mem_leaves_reverse, hup] using hwhat

theorem adds_step {offset : Nat} {token : Token} (hr : r.step d limits offset token = .ok r') :
    Adds token.leaf? r r' := by
  cases moves_of_step hr with
  | char hr | starChar hr | caretChar hr => exact adds_char hr
  | any hr | backRef _ hr => exact adds_leaf hr
  | word | lineStart => exact adds_push_of_eq _ _ rfl
  | dollar =>
    have h : Adds none r (r.assert .lineEnd) := adds_push_of_eq _ _ rfl
    exact ⟨h.groups, h.numbered, h.leaves⟩
  | star hr | quantifier hr => exact adds_quantify hr
  | openGroup hr => exact adds_openGroup hr
  | closeGroup hr => exact adds_closeGroup hr
  | bracket | bar => exact ⟨Nat.le_refl _, id, fun _ hwhat => Or.inl hwhat⟩

theorem exists_adds_of_readToken {x : Char} {offset : Nat} {start c after : Cursor}
    (hx : start.next? = some (x, c)) (hr : r.readToken d limits x offset c = .ok (r', after)) :
    ∃ added : Option Leaf, Adds added r r' ∧
      start.Yields after (added.toList.flatMap Leaf.chars) := by
  unfold Reader.readToken at hr
  obtain ⟨⟨token, c₁⟩, htoken, hr⟩ := exists_of_bind_eq_ok hr
  obtain ⟨r₁, hstep, hr⟩ := exists_of_bind_eq_ok hr
  have h₁ := Token.yields_read hx (ok_of_mapError htoken)
  have hadds := adds_step (ok_of_mapError hstep)
  split at hr
  · obtain ⟨⟨b, c₂⟩, hb, hr⟩ := exists_of_bind_eq_ok hr
    cases hr
    refine ⟨some (.bracket b), ⟨hadds.groups, hadds.numbered, fun what hwhat => ?_⟩, ?_⟩
    · have hpush := adds_push_leaf (r := r₁) (.bracket b) 1 0
      refine (hpush.leaves what hwhat).imp_left fun hmem => ?_
      exact (hadds.leaves what hmem).resolve_right fun h => nomatch h
    · have h₂ : start.Yields after (Leaf.chars (.bracket b)) := h₁.trans (Bracket.yields_read hb)
      rwa [Option.toList_some, List.flatMap_singleton]
  · cases hr
    exact ⟨_, hadds, h₁⟩

theorem ascii_readAll {steps : Nat} {c : Cursor} {p : Pattern}
    (hp : readAll d limits steps r c = .ok p) (hc : Ascii c.rest)
    (h : ∀ what ∈ r.leaves, Ascii what.chars) : ∀ what ∈ p.leaves, Ascii what.chars := by
  have hfinish : ∀ {r : Reader} {offset : Nat}, r.finish limits offset = .ok p →
      (∀ what ∈ r.leaves, Ascii what.chars) → ∀ what ∈ p.leaves, Ascii what.chars := by
    intro r offset hp h what hwhat
    unfold Reader.finish at hp
    split at hp
    · cases hp
    · split at hp
      · cases hp
      · cases hp
        exact h what (List.mem_append_left _ (Pattern.mem_leaves_reverse.mp hwhat))
  induction steps generalizing r c with
  | zero => exact hfinish hp h
  | succ steps ih =>
    unfold Reader.readAll at hp
    split at hp
    · exact hfinish hp h
    · rename_i x c₁ hx
      obtain ⟨⟨r', c₂⟩, hr, hp⟩ := exists_of_bind_eq_ok hp
      obtain ⟨added, hadds, hyields⟩ := exists_adds_of_readToken hx hr
      obtain ⟨hadded, hrest⟩ := hyields.ascii hc
      simp only at hp
      split at hp
      · cases hp
      · refine ih hp hrest fun what hwhat => ?_
        rcases hadds.leaves what hwhat with hwhat | rfl
        · exact h what hwhat
        · simpa using hadded

end Reader

theorem Pattern.ascii_of_read {d : Dialect} {limits : CompileLimits} {text : List Char}
    {p : Pattern} (h : Pattern.read d limits text = .ok p) (htext : Ascii text) :
    ∀ what ∈ p.leaves, Ascii what.chars :=
  Reader.ascii_readAll h htext fun _ hwhat => nomatch hwhat

end PosixRegex
