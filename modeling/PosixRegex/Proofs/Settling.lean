namespace PosixRegex

noncomputable def settled {α : Type} (f : Nat → Option α) : Option α :=
  f (Classical.epsilon fun n => (f n).isSome = true)

theorem eq_some_of_le {α : Type} {f : Nat → Option α} {n n' : Nat} {x : α}
    (stays : ∀ n x, f n = some x → f (n + 1) = some x) (hn : f n = some x) (hle : n ≤ n') :
    f n' = some x := by
  induction hle with
  | refl => exact hn
  | step _ ih => exact stays _ _ ih

/-- A result of `f` that is there stays, and `a` is what is there in the end. -/
structure Settles {α : Type} (f : Nat → Option α) (a : Option α) : Prop where
  stays {n : Nat} {x : α} (h : f n = some x) : f (n + 1) = some x
  eq_some_iff (x : α) : a = some x ↔ ∃ n, f n = some x

namespace Settles

variable {α β : Type} {f f' : Nat → Option α} {a a' : Option α} {g : α → Nat → Option β}
  {b : α → Option β} {n n' : Nat} {x : α}

theorem stays_of_le (h : Settles f a) (hn : f n = some x) (hle : n ≤ n') : f n' = some x :=
  eq_some_of_le (fun _ _ => h.stays) hn hle

theorem unique (h : Settles f a) (h' : Settles f a') : a = a' := by
  apply Option.ext
  intro x
  rw [h.eq_some_iff, h'.eq_some_iff]

theorem const (a : Option α) : Settles (fun _ => a) a where
  stays h := h
  eq_some_iff _ := exists_const Nat |>.symm

theorem bind (h : Settles f a) (hg : ∀ x, Settles (g x) (b x)) :
    Settles (fun n => (f n).bind (g · n)) (a.bind b) where
  stays hn := by
    obtain ⟨x, hx, hy⟩ := Option.bind_eq_some_iff.mp hn
    exact Option.bind_eq_some_iff.mpr ⟨x, h.stays hx, (hg x).stays hy⟩
  eq_some_iff y := by
    rw [Option.bind_eq_some_iff]
    constructor
    · rintro ⟨x, hx, hy⟩
      obtain ⟨n, hn⟩ := (h.eq_some_iff x).mp hx
      obtain ⟨n', hn'⟩ := ((hg x).eq_some_iff y).mp hy
      refine ⟨max n n', Option.bind_eq_some_iff.mpr ⟨x, ?_, ?_⟩⟩
      · exact h.stays_of_le hn (Nat.le_max_left n n')
      · exact (hg x).stays_of_le hn' (Nat.le_max_right n n')
    · rintro ⟨n, hn⟩
      obtain ⟨x, hx, hy⟩ := Option.bind_eq_some_iff.mp hn
      exact ⟨x, (h.eq_some_iff x).mpr ⟨n, hx⟩, ((hg x).eq_some_iff y).mpr ⟨n, hy⟩⟩

theorem ite {p : Prop} [Decidable p] (h : Settles f a) (h' : Settles f' a') :
    Settles (fun n => if p then f n else f' n) (if p then a else a') := by
  by_cases hp : p
  · simpa only [if_pos hp] using h
  · simpa only [if_neg hp] using h'

theorem of_succ (hzero : f 0 = none) (h : Settles (fun n => f (n + 1)) a) : Settles f a where
  stays {n} _ hn := by
    cases n with
    | zero =>
      rw [hzero] at hn
      cases hn
    | succ n => exact h.stays hn
  eq_some_iff x := by
    rw [h.eq_some_iff]
    constructor
    · rintro ⟨n, hn⟩
      exact ⟨n + 1, hn⟩
    · rintro ⟨n, hn⟩
      cases n with
      | zero =>
        rw [hzero] at hn
        cases hn
      | succ n => exact ⟨n, hn⟩

theorem of_le_one (hzero : ∀ x, f 0 = some x → a = some x) (hsucc : ∀ n, f (n + 1) = a) :
    Settles f a where
  stays {n} x hn := by
    rw [hsucc]
    cases n with
    | zero => exact hzero x hn
    | succ n => exact (hsucc n).symm.trans hn
  eq_some_iff x := by
    constructor
    · intro h
      exact ⟨1, (hsucc 0).trans h⟩
    · rintro ⟨n, hn⟩
      cases n with
      | zero => exact hzero x hn
      | succ n => exact (hsucc n).symm.trans hn

theorem settled (stays : ∀ n x, f n = some x → f (n + 1) = some x) : Settles f (settled f) where
  stays {n} x h := stays n x h
  eq_some_iff x := by
    constructor
    · intro h
      exact ⟨_, h⟩
    · rintro ⟨n, hn⟩
      have hsome : (PosixRegex.settled f).isSome = true :=
        Classical.epsilon_spec (p := fun n => (f n).isSome = true) ⟨n, by rw [hn]; rfl⟩
      obtain ⟨y, hy⟩ := Option.isSome_iff_exists.mp hsome
      rcases Nat.le_total n (Classical.epsilon fun n => (f n).isSome = true) with h | h
      · exact eq_some_of_le stays hn h
      · obtain rfl : y = x := Option.some.inj ((eq_some_of_le stays hy h).symm.trans hn)
        exact hy

end Settles

end PosixRegex
