import PosixRegex.Proofs.Pattern.Part
import PosixRegex.Proofs.Repetition

namespace PosixRegex

/-- What a group consists of, and whether a group around it may be iterated. -/
structure Site where
  body : Pattern
  times : Repetition
  again : Bool

namespace Pattern

variable {p q : Pattern} {g h n n' : Nat} {again : Bool} {site : Site}

/-- The site of group `g`, where the groups are numbered from `n` on. -/
def site? (g : Nat) : (again : Bool) → (n : Nat) → Pattern → Option Site
  | _, _, done => none
  | again, n, leaf _ _ rest | again, n, assert _ rest | again, n, bar rest => rest.site? g again n
  | again, n, group body times rest =>
    if g = n then some ⟨body, times, again⟩
    else if g ≤ n + body.groupCount then body.site? g (again || times.belowMax 1) (n + 1)
    else rest.site? g again (n + 1 + body.groupCount)

/-- Whether group `h` is entered or skipped on every way through the pattern, which must not have
several alternatives. -/
def renews (h : Nat) : (n : Nat) → Pattern → Bool
  | _, done | _, bar _ => false
  | n, leaf _ _ rest | n, assert _ rest => rest.renews h n
  | n, group body times rest =>
    if h ≤ n + body.groupCount then
      (h == n || (decide (1 ≤ times.min) && body.renews h (n + 1))) &&
        (rest.afterBar (n + 1 + body.groupCount)).isNone
    else rest.renews h (n + 1 + body.groupCount)

theorem site?_group {body rest : Pattern} {times : Repetition}
    (hsite : (group body times rest).site? g again n = some site) :
    g = n ∧ ⟨body, times, again⟩ = site ∨
      body.site? g (again || times.belowMax 1) (n + 1) = some site ∨
      rest.site? g again (n + 1 + body.groupCount) = some site := by
  unfold site? at hsite
  split at hsite
  · exact Or.inl ⟨‹_›, Option.some.inj hsite⟩
  · split at hsite
    · exact Or.inr (Or.inl hsite)
    · exact Or.inr (Or.inr hsite)

theorem bounds_of_site? (hsite : p.site? g again n = some site) :
    n ≤ g ∧ g + site.body.groupCount < n + p.groupCount := by
  induction p generalizing again n with
  | done => cases hsite
  | leaf what times rest ih | assert what rest ih | bar rest ih => exact ih hsite
  | group body times rest ihbody ih =>
    simp only [groupCount]
    rcases site?_group hsite with ⟨rfl, rfl⟩ | hbody | hrest
    · simp only
      omega
    · have := ihbody hbody
      omega
    · have := ih hrest
      omega

theorem again_of_site? (hsite : p.site? g true n = some site) : site.again = true := by
  induction p generalizing n with
  | done => cases hsite
  | leaf what times rest ih | assert what rest ih | bar rest ih => exact ih hsite
  | group body times rest ihbody ih =>
    rcases site?_group hsite with ⟨-, rfl⟩ | hbody | hrest
    · rfl
    · exact ihbody hbody
    · exact ih hrest

theorem site?_of_afterBar (hp : p.afterBar n = some (n', q))
    (hsite : p.site? g again n = some site) :
    q.site? g again n' = some site ∨ g + site.body.groupCount < n' := by
  induction p generalizing n with
  | done => cases hp
  | leaf what times rest ih | assert what rest ih => exact ih hp hsite
  | bar rest _ =>
    obtain ⟨rfl, rfl⟩ : n = n' ∧ rest = q := by simpa [afterBar] using hp
    exact Or.inl hsite
  | group body times rest _ ih =>
    have hle := (le_of_afterBar (p := rest) hp).1
    rcases site?_group hsite with ⟨rfl, rfl⟩ | hbody | hrest
    · right
      simp only
      omega
    · have := bounds_of_site? hbody
      right
      omega
    · exact ih hp hrest

theorem renews_group {body rest : Pattern} {times : Repetition}
    (hr : (group body times rest).renews h n = true) :
    h = n ∨ 1 ≤ times.min ∧ body.renews h (n + 1) = true ∨
      rest.renews h (n + 1 + body.groupCount) = true := by
  unfold renews at hr
  split at hr
  · have hbody := (Bool.and_eq_true_iff.mp hr).1
    rw [Bool.or_eq_true, beq_iff_eq, Bool.and_eq_true, decide_eq_true_eq] at hbody
    exact hbody.imp_right Or.inl
  · exact Or.inr (Or.inr hr)

theorem bounds_of_renews (hr : p.renews h n = true) : n ≤ h ∧ h < n + p.groupCount := by
  induction p generalizing n with
  | done | bar => cases hr
  | leaf what times rest ih | assert what rest ih => exact ih hr
  | group body times rest ihbody ih =>
    simp only [groupCount]
    rcases renews_group hr with rfl | ⟨-, hbody⟩ | hrest
    · omega
    · have := ihbody hbody
      omega
    · have := ih hrest
      omega

theorem afterBar_of_renews (hr : p.renews h n = true) : p.afterBar n = none := by
  induction p generalizing n with
  | done | bar => cases hr
  | leaf what times rest ih | assert what rest ih => exact ih hr
  | group body times rest _ ih =>
    unfold renews at hr
    split at hr
    · exact Option.isNone_iff_eq_none.mp (Bool.and_eq_true_iff.mp hr).2
    · exact ih hr

end Pattern

/-- Whether each iteration of group `g` gives group `h` inside of it a span in its own or none. That
is so if there is only one iteration, or if every iteration renews group `h` and skipping group `g`
leaves no span of group `h` behind. -/
def Site.Binds (site : Site) (g h : Nat) : Prop :=
  site.again = false ∧ site.times.belowMax 1 = false ∨
    (site.again = false ∨ 1 ≤ site.times.min) ∧ site.body.renews h (g + 1) = true

end PosixRegex
