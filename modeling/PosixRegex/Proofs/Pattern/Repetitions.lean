import PosixRegex.Proofs.Program.Draft

namespace PosixRegex

namespace Repetition

def Bounded : Repetition → Prop
  | between m n => m ≤ n ∧ n ≤ maxBound
  | atLeast m => m ≤ maxBound
  | once | star | plus | optional => True

theorem bounded_of_repetition? {b : Bounds} {times : Repetition}
    (h : b.repetition? = some times) : times.Bounded := by
  unfold Bounds.repetition? at h
  split at h
  · split at h
    · rename_i hle
      cases h
      exact hle
    · cases h
  · split at h
    · rename_i hle
      cases h
      exact hle
    · cases h

theorem stack_eq_or (times later : Repetition) :
    times.stack later = times ∨ times.stack later = later := by
  unfold stack
  split
  · exact .inr rfl
  · exact .inl rfl

end Repetition

namespace Pattern

variable {P : Repetition → Prop} {p k : Pattern} {times : Repetition}

def Repeats (P : Repetition → Prop) : Pattern → Prop
  | done => True
  | leaf _ times rest => P times ∧ rest.Repeats P
  | assert _ rest | bar rest => rest.Repeats P
  | group body times rest => body.Repeats P ∧ P times ∧ rest.Repeats P

theorem repeats_reverseOnto : (p.reverseOnto k).Repeats P ↔ p.Repeats P ∧ k.Repeats P := by
  induction p generalizing k with
  | done => exact (and_iff_right trivial).symm
  | leaf what times rest ih =>
    rw [reverseOnto, ih, Repeats, Repeats]
    exact and_left_comm.trans and_assoc.symm
  | assert what rest ih | bar rest ih =>
    rw [reverseOnto, ih]
    rfl
  | group body times rest _ ih =>
    rw [reverseOnto, ih, Repeats, Repeats]
    constructor
    · rintro ⟨hrest, hbody, htimes, hk⟩
      exact ⟨⟨hbody, htimes, hrest⟩, hk⟩
    · rintro ⟨⟨hbody, htimes, hrest⟩, hk⟩
      exact ⟨hrest, hbody, htimes, hk⟩

theorem repeats_reverse : p.reverse.Repeats P ↔ p.Repeats P :=
  repeats_reverseOnto.trans (and_iff_left trivial)

theorem Repeats.setTimes (h : p.Repeats P) (htimes : P times) : (p.setTimes times).Repeats P := by
  cases p with
  | done | assert | bar => exact h
  | leaf what _ rest => exact ⟨htimes, h.2⟩
  | group body _ rest => exact ⟨h.1, htimes, h.2.2⟩

theorem Repeats.quantified? (h : p.Repeats P) (hp : p.quantified? = some times) : P times := by
  cases p with
  | done | assert | bar => cases hp
  | leaf what _ rest =>
    cases hp
    exact h.1
  | group body _ rest =>
    cases hp
    exact h.2.1

end Pattern

namespace Reader

variable {P : Repetition → Prop} {d : Dialect} {limits : CompileLimits} {r r' : Reader}
  {times : Repetition}

def Repeats (P : Repetition → Prop) (r : Reader) : Prop :=
  ∀ s ∈ r.scope :: r.outer, s.items.Repeats P

theorem Repeats.change (h : r.Repeats P) (hitems : r'.scope.items.Repeats P)
    (houter : r'.outer = r.outer) : r'.Repeats P := by
  rw [Repeats, houter]
  exact List.forall_mem_cons.mpr ⟨hitems, (List.forall_mem_cons.mp h).2⟩

theorem Repeats.items (h : r.Repeats P) : r.scope.items.Repeats P := h _ List.mem_cons_self

theorem Repeats.quantify (h : r.Repeats P) (htimes : P times) (hr : r.quantify d times = .ok r') :
    r'.Repeats P := by
  obtain ⟨-, -, rfl⟩ | ⟨old, -, hold, -, rfl⟩ := cases_of_quantify hr
  · exact h.change (h.items.setTimes htimes) rfl
  · have hstack : P (old.stack times) := by
      obtain heq | heq := old.stack_eq_or times
      · rw [heq]
        exact h.items.quantified? hold
      · rw [heq]
        exact htimes
    exact h.change (h.items.setTimes hstack) rfl

theorem Repeats.finish (h : r.Repeats P) {offset : Nat} {p : Pattern}
    (hp : r.finish limits offset = .ok p) : p.Repeats P := by
  unfold Reader.finish at hp
  split at hp
  · cases hp
  · split at hp
    · cases hp
    · cases hp
      exact Pattern.repeats_reverse.mpr h.items

section

variable (honce : P .once)

include honce

theorem Repeats.push_leaf (h : r.Repeats P) (what : Leaf) (size run : Nat) :
    (r.push (.leaf what .once) size run).Repeats P :=
  h.change ⟨honce, h.items⟩ rfl

theorem Repeats.char (h : r.Repeats P) {c : Char} (hr : r.char d limits c = .ok r') :
    r'.Repeats P := by
  obtain ⟨size, run, rfl⟩ := exists_push_of_char hr
  exact h.push_leaf honce (.char c) size run

theorem Repeats.leaf (h : r.Repeats P) {what : Leaf} (hr : r.leaf d what = .ok r') :
    r'.Repeats P := by
  obtain rfl := eq_push_of_leaf hr
  exact h.push_leaf honce what _ _

theorem Repeats.closeGroup (h : r.Repeats P) (hr : r.closeGroup = .ok r') : r'.Repeats P := by
  obtain ⟨up, outer, hup, rfl⟩ := exists_of_closeGroup hr
  rw [Repeats, hup, List.forall_mem_cons, List.forall_mem_cons] at h
  obtain ⟨hitems, hscope, houter⟩ := h
  exact List.forall_mem_cons.mpr ⟨⟨Pattern.repeats_reverse.mpr hitems, honce, hscope⟩, houter⟩

variable (hstar : P .star)

include hstar

theorem Repeats.step (h : r.Repeats P) {offset : Nat} {token : Token}
    (htoken : ∀ times, token = .quantifier times → P times)
    (hr : r.step d limits offset token = .ok r') : r'.Repeats P := by
  cases moves_of_step hr with
  | char hr | starChar hr | caretChar hr => exact h.char honce hr
  | any hr | backRef _ hr => exact h.leaf honce hr
  | bracket => exact h
  | word | lineStart | dollar | bar => exact h.change h.items rfl
  | star hr => exact h.quantify hstar hr
  | quantifier hr => exact h.quantify (htoken _ rfl) hr
  | openGroup hr =>
    obtain rfl := eq_of_openGroup hr
    exact List.forall_mem_cons.mpr ⟨trivial, h⟩
  | closeGroup hr => exact h.closeGroup honce hr

variable (hplus : P .plus) (hoptional : P .optional)
  (hbounds : ∀ (b : Bounds) times, b.repetition? = some times → P times)

include hplus hoptional hbounds

theorem Repeats.readToken (h : r.Repeats P) {x : Char} {offset : Nat} {c after : Cursor}
    (hr : r.readToken d limits x offset c = .ok (r', after)) : r'.Repeats P := by
  unfold Reader.readToken at hr
  obtain ⟨⟨token, c'⟩, htoken, hr⟩ := exists_of_bind_eq_ok hr
  obtain ⟨r₁, hstep, hr⟩ := exists_of_bind_eq_ok hr
  have hquantifier : ∀ times, token = .quantifier times → P times := by
    refine Token.of_read (P := fun token => ∀ times, token = .quantifier times → P times)
      (fun _ hne times heq => absurd heq (hne times)) ?_ ?_ (fun b times hb => ?_)
      (ok_of_mapError htoken)
    all_goals rintro _ ⟨⟩
    · exact hplus
    · exact hoptional
    · exact hbounds b _ hb
  have h₁ := h.step honce hstar hquantifier (ok_of_mapError hstep)
  split at hr
  · obtain ⟨⟨b, c''⟩, hb, hr⟩ := exists_of_bind_eq_ok hr
    cases hr
    exact h₁.push_leaf honce (.bracket b) _ _
  · cases hr
    exact h₁

theorem Repeats.readAll (h : r.Repeats P) {steps : Nat} {c : Cursor} {p : Pattern}
    (hp : readAll d limits steps r c = .ok p) : p.Repeats P := by
  induction steps generalizing r c with
  | zero => exact h.finish hp
  | succ steps ih =>
    unfold Reader.readAll at hp
    split at hp
    · exact h.finish hp
    · obtain ⟨⟨r', c'⟩, hr, hp⟩ := exists_of_bind_eq_ok hp
      simp only at hp
      split at hp
      · cases hp
      · exact ih (h.readToken honce hstar hplus hoptional hbounds hr) hp

end

end Reader

namespace Pattern

variable {d : Dialect} {limits : CompileLimits} {text : List Char} {p : Pattern}

/-- What holds of every repetition that can be written holds of all repetitions of a pattern. -/
theorem repeats_of_read {P : Repetition → Prop} (honce : P .once) (hstar : P .star)
    (hplus : P .plus) (hoptional : P .optional)
    (hbounds : ∀ (b : Bounds) times, b.repetition? = some times → P times)
    (h : read d limits text = .ok p) : p.Repeats P := by
  have hstart : Reader.start.Repeats P := List.forall_mem_singleton.mpr trivial
  exact hstart.readAll honce hstar hplus hoptional hbounds h

theorem bounded_of_read (h : read d limits text = .ok p) : p.Repeats Repetition.Bounded :=
  repeats_of_read trivial trivial trivial trivial
    (fun _ _ => Repetition.bounded_of_repetition?) h

end Pattern

end PosixRegex
