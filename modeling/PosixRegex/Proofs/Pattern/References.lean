import PosixRegex.Proofs.Pattern.Leaves

namespace PosixRegex

theorem Pattern.refs_chars (cs : List Char) (rest : Pattern) : (chars cs rest).refs = rest.refs := by
  induction cs with
  | nil => rfl
  | cons c cs ih => exact ih

theorem Pattern.mem_refs {p : Pattern} {g : Nat} : g ∈ p.refs ↔ .backRef g ∈ p.leaves := by
  rw [refs_eq_flatMap_leaves, List.mem_flatMap]
  constructor
  · rintro ⟨what, hwhat, hg⟩
    cases what with
    | backRef g' =>
      obtain rfl := List.mem_singleton.mp hg
      exact hwhat
    | char | any | bracket => cases hg
  · exact fun h => ⟨_, h, List.mem_singleton_self g⟩

/-- A pattern refers to its own groups only, and their numbers have 16 bits. -/
structure Pattern.Numbered (p : Pattern) : Prop where
  refs : ∀ g ∈ p.refs, g ≤ p.groupCount
  count : p.groupCount ≤ Reader.maxGroup

namespace Reader

variable {d : Dialect} {limits : CompileLimits} {r r' : Reader} {g : Nat}

theorem mem_closed_of_step {offset : Nat} {token : Token} (h : token.leaf? = some (.backRef g))
    (hr : r.step d limits offset token = .ok r') : g ∈ r.closed := by
  cases moves_of_step hr with
  | backRef hg hr =>
    cases h
    exact hg
  | _ => cases h

/-- The scopes are in order, only groups that have been opened are referred to, and their numbers
have 16 bits. -/
structure Refers (r : Reader) : Prop where
  holds : r.Holds
  refs : ∀ g, .backRef g ∈ r.leaves → g ≤ r.groups
  groups : r.groups ≤ maxGroup

theorem start_refers : start.Refers :=
  ⟨start_holds, fun _ hg => (nomatch hg), Nat.zero_le _⟩

theorem Adds.refers {added : Option Leaf} (h : Adds added r r') (hr : r.Refers)
    (hadded : ∀ g, added = some (.backRef g) → g ∈ r.closed) (hholds : r'.Holds) : r'.Refers := by
  refine ⟨hholds, fun g hg => Nat.le_trans ?_ h.groups, h.numbered hr.groups⟩
  rcases h.leaves _ hg with hg | hg
  · exact hr.refs g hg
  · exact (hr.holds.closed g (hadded g hg)).2

theorem Refers.readToken (h : r.Refers) {x : Char} {offset : Nat} {c after : Cursor}
    (hr : r.readToken d limits x offset c = .ok (r', after)) : r'.Refers := by
  have hholds := h.holds.readToken hr
  unfold Reader.readToken at hr
  obtain ⟨⟨token, c'⟩, htoken, hr⟩ := exists_of_bind_eq_ok hr
  obtain ⟨r₁, hstep, hr⟩ := exists_of_bind_eq_ok hr
  have hstep := ok_of_mapError hstep
  have hadds := adds_step hstep
  have hclosed : ∀ g, token.leaf? = some (.backRef g) → g ∈ r.closed :=
    fun g hg => mem_closed_of_step hg hstep
  split at hr
  · have hordered := Token.ordered_of_read (ok_of_mapError htoken)
    have h₁ := hadds.refers h hclosed (h.holds.step hordered hstep)
    obtain ⟨⟨b, c''⟩, -, hr⟩ := exists_of_bind_eq_ok hr
    cases hr
    exact (adds_push_leaf (.bracket b) 1 0).refers h₁ (fun _ hg => nomatch hg) hholds
  · cases hr
    exact hadds.refers h hclosed hholds

theorem Refers.finish (h : r.Refers) {offset : Nat} {p : Pattern}
    (hp : r.finish limits offset = .ok p) : p.Numbered := by
  unfold Reader.finish at hp
  split at hp
  · cases hp
  · rename_i houter
    obtain ⟨-, hcount, hgroup⟩ := h.holds.nested
    rw [houter] at hgroup
    have hzero : r.scope.group = 0 := hgroup
    split at hp
    · cases hp
    · cases hp
      have hgroups : r.scope.items.reverse.groupCount = r.groups := by
        rw [Pattern.groupCount_reverse]
        omega
      refine ⟨fun g hg => ?_, hgroups ▸ h.groups⟩
      have hmem := Pattern.mem_leaves_reverse.mp (Pattern.mem_refs.mp hg)
      exact hgroups ▸ h.refs g (List.mem_append_left _ hmem)

theorem Refers.readAll (h : r.Refers) {steps : Nat} {c : Cursor} {p : Pattern}
    (hp : readAll d limits steps r c = .ok p) : p.Numbered := by
  induction steps generalizing r c with
  | zero => exact h.finish hp
  | succ steps ih =>
    unfold Reader.readAll at hp
    split at hp
    · exact h.finish hp
    · obtain ⟨⟨r', c'⟩, hr, hp⟩ := exists_of_bind_eq_ok hp
      simp only at hp
      split at hp
      · cases hp
      · exact ih (h.readToken hr) hp

end Reader

theorem Pattern.numbered_of_read {d : Dialect} {limits : CompileLimits} {text : List Char}
    {p : Pattern} (h : Pattern.read d limits text = .ok p) : p.Numbered :=
  Reader.start_refers.readAll h

end PosixRegex
