import Mathlib.Computability.Language
import PosixRegex.Proofs.Pattern.Nullable

namespace PosixRegex

def Repetition.language (times : Repetition) (L : Language Char) : Language Char :=
  {w | ∃ k, times.Allows k ∧ w ∈ L ^ k}

def Leaf.language (what : Leaf) (o : Options) (l : Locale) : Language Char :=
  {w | ∃ c, w = [c] ∧ what.Admits o l c}

namespace Pattern

variable {p q : Pattern} {n n' : Nat}

def isRegular : Pattern → Bool
  | done => true
  | leaf what _ rest => !what.isBackRef && rest.isRegular
  | assert _ _ => false
  | group body _ rest => body.isRegular && rest.isRegular
  | bar rest => rest.isRegular

/-- The language of a pattern without assertions and references. The words of `before` stand for
the items of the first alternative that have been read. -/
def language (o : Options) (l : Locale) : (before : Language Char) → Pattern → Language Char
  | before, done => before
  | before, leaf what times rest => language o l (before * times.language (what.language o l)) rest
  | _, assert _ rest => language o l 0 rest
  | before, group body times rest =>
    language o l (before * times.language (language o l 1 body)) rest
  | before, bar rest => before + language o l 1 rest

theorem refs_of_isRegular (h : p.isRegular = true) : p.refs = [] := by
  induction p with
  | done => rfl
  | assert what rest _ => cases h
  | bar rest ih => exact ih h
  | leaf what times rest ih =>
    simp only [isRegular, Bool.and_eq_true, Bool.not_eq_true'] at h
    rw [refs, ih h.2]
    cases what with
    | backRef g => cases h.1
    | char | any | bracket => rfl
  | group body times rest ihbody ih =>
    rw [isRegular, Bool.and_eq_true] at h
    rw [refs, ihbody h.1, ih h.2]
    rfl

theorem isNullable_of_isRegular {lax ok : Bool} (h : p.isRegular = true) :
    p.isNullable lax ok = p.isNullable false ok := by
  induction p generalizing lax ok with
  | done => rfl
  | assert what rest _ => cases h
  | bar rest ih => rw [isNullable, isNullable, ih h]
  | leaf what times rest ih =>
    simp only [isRegular, Bool.and_eq_true, Bool.not_eq_true'] at h
    rw [isNullable, isNullable, ih h.2, h.1]
    simp
  | group body times rest ihbody ih =>
    rw [isRegular, Bool.and_eq_true] at h
    rw [isNullable, isNullable, ih h.2, ihbody h.1]

theorem isOrderly_of_isRegular (h : p.isRegular = true) : p.isOrderly [] n = true := by
  induction p generalizing n with
  | done => rfl
  | assert what rest _ => cases h
  | bar rest ih => exact ih h
  | leaf what times rest ih =>
    rw [isRegular, Bool.and_eq_true] at h
    exact ih h.2
  | group body times rest ihbody ih =>
    rw [isRegular, Bool.and_eq_true] at h
    rw [isOrderly, ihbody h.1, ih h.2, isNullable_of_isRegular h.1]
    cases body.isNullable false true <;> simp

end Pattern

def Reading.Describes (r : Reading) (part : Part) (w : List Char) : Prop :=
  ∀ pos next held, r.subject.Spells pos next w →
    ∃ held', Derives r part ⟨pos, held⟩ ⟨next, held'⟩

namespace Reading

variable {r : Reading} {p body rest : Pattern} {times : Repetition} {what : Leaf} {n g k : Nat}
  {v w : List Char} {held : Nat → Option Span} {pos next : Nat}

theorem copies_of_mem_pow (hwhat : what.isBackRef = false)
    (hw : w ∈ what.language r.options r.locale ^ k) (h : r.subject.Spells pos next w) :
    r.Copies held what k pos next := by
  induction k generalizing w pos with
  | zero =>
    obtain rfl : w = [] := hw
    obtain ⟨-, rfl⟩ := Subject.spells_nil.mp h
    exact .zero
  | succ k ih =>
    rw [pow_succ'] at hw
    obtain ⟨u, ⟨c, rfl, hc⟩, v, hv, rfl⟩ := Language.mem_mul.mp hw
    obtain ⟨mid, hu, hv'⟩ := Subject.spells_append.mp h
    refine .succ ?_ (ih hv hv')
    cases what with
    | backRef g => cases hwhat
    | char | any | bracket => exact ⟨c, hu, hc⟩

theorem describes_rounds {L : Language Char} {count : Nat}
    (hbody : ∀ w ∈ L, r.Describes (.alts body (g + 1)) w) (hw : w ∈ L ^ (k + 1))
    (hmin : times.min ≤ count + (k + 1)) (hmax : ∀ n, times.max? = some n → count + (k + 1) ≤ n) :
    r.Describes (.rounds body times g count) w := by
  have hbelow : times.belowMax count = true :=
    Repetition.belowMax_iff.mpr fun n hn => by
      have := hmax n hn
      omega
  induction k generalizing w count with
  | zero =>
    intro pos next held hspells
    rw [pow_one] at hw
    obtain ⟨held', hd⟩ := hbody w hw pos next held hspells
    exact ⟨_, .last hd hbelow (Or.inl hmin)⟩
  | succ k ih =>
    intro pos next held hspells
    rw [pow_succ'] at hw
    obtain ⟨u, hu, v, hv, rfl⟩ := Language.mem_mul.mp hw
    obtain ⟨mid, hpos, hnext⟩ := Subject.spells_append.mp hspells
    obtain ⟨held₁, hd⟩ := hbody u hu pos mid held hpos
    have hmax' : ∀ n, times.max? = some n → count + 1 + (k + 1) ≤ n := fun n hn => by
      have := hmax n hn
      omega
    have hbelow' : times.belowMax (count + 1) = true :=
      Repetition.belowMax_iff.mpr fun n hn => by
        have := hmax' n hn
        omega
    obtain ⟨held₂, hd₂⟩ := ih hv (by omega) hmax' hbelow' mid next _ hnext
    exact ⟨held₂, .again hd hbelow hd₂⟩

theorem describes_alts (h : r.Describes (.seq p n) w ∨
    ∃ n' q, p.afterBar n = some (n', q) ∧ r.Describes (.alts q n') w) :
    r.Describes (.alts p n) w := by
  intro pos next held hspells
  rcases h with hseq | ⟨n', q, hq, halts⟩
  · exact (hseq pos next held hspells).imp fun _ hd => .here hd
  · exact (halts pos next held hspells).imp fun _ hd => .later hq hd

theorem describes_group {L : Language Char} (hbody : ∀ w ∈ L, r.Describes (.alts body (n + 1)) w)
    (hw : w ∈ times.language L) (hrest : r.Describes (.seq rest (n + 1 + body.groupCount)) v) :
    r.Describes (.seq (.group body times rest) n) (w ++ v) := by
  intro pos next held hspells
  obtain ⟨mid, hpos, hnext⟩ := Subject.spells_append.mp hspells
  obtain ⟨k, ⟨hmin, hmax⟩, hk⟩ := hw
  cases k with
  | zero =>
    obtain rfl : w = [] := hk
    obtain ⟨-, rfl⟩ := Subject.spells_nil.mp hpos
    exact (hrest pos next _ hnext).imp fun _ hd => .skip (Nat.le_zero.mp hmin) hd
  | succ k =>
    have hrounds : r.Describes (.rounds body times n 0) w :=
      describes_rounds hbody hk (by simpa using hmin) (by simpa using hmax)
    obtain ⟨held₁, hd₁⟩ := hrounds pos mid held hpos
    exact (hrest mid next held₁ hnext).imp fun _ hd => .group hd₁ hd

theorem describes_alts_of_one (h : (∃ u ∈ (1 : Language Char), ∃ v, u ++ v = w ∧
      r.Describes (.seq p n) v) ∨
    ∃ n' q, p.afterBar n = some (n', q) ∧ r.Describes (.alts q n') w) :
    r.Describes (.alts p n) w := by
  refine describes_alts (h.imp_left ?_)
  rintro ⟨u, hu, v, rfl, hv⟩
  obtain rfl : u = [] := hu
  exact hv

/-- A word of the language belongs to the first alternative, behind a word of `before`, or to a
later one. -/
theorem describes_of_mem_language {before : Language Char} (hp : p.isRegular = true)
    (hw : w ∈ p.language r.options r.locale before) :
    (∃ u ∈ before, ∃ v, u ++ v = w ∧ r.Describes (.seq p n) v) ∨
      ∃ n' q, p.afterBar n = some (n', q) ∧ r.Describes (.alts q n') w := by
  induction p generalizing n w before with
  | done =>
    refine Or.inl ⟨w, hw, [], List.append_nil w, fun pos next held hspells => ?_⟩
    obtain ⟨-, rfl⟩ := Subject.spells_nil.mp hspells
    exact ⟨held, .done⟩
  | assert what rest _ => cases hp
  | bar rest ih =>
    rcases (Language.mem_add _ _ _).mp hw with hw | hw
    · refine Or.inl ⟨w, hw, [], List.append_nil w, fun pos next held hspells => ?_⟩
      obtain ⟨-, rfl⟩ := Subject.spells_nil.mp hspells
      exact ⟨held, .bar⟩
    · exact Or.inr ⟨n, rest, rfl, describes_alts_of_one (ih hp hw)⟩
  | leaf what times rest ih =>
    simp only [Pattern.isRegular, Bool.and_eq_true, Bool.not_eq_true'] at hp
    refine (ih hp.2 hw).imp_left ?_
    rintro ⟨u, hu, v, rfl, hv⟩
    obtain ⟨u, hu', x, ⟨k, hk, hx⟩, rfl⟩ := Language.mem_mul.mp hu
    refine ⟨u, hu', x ++ v, (List.append_assoc u x v).symm, fun pos next held hspells => ?_⟩
    obtain ⟨mid, hpos, hnext⟩ := Subject.spells_append.mp hspells
    exact (hv mid next held hnext).imp fun _ hd => .leaf hk (copies_of_mem_pow hp.1 hx hpos) hd
  | group body times rest ihbody ih =>
    rw [Pattern.isRegular, Bool.and_eq_true] at hp
    have hbody : ∀ w ∈ body.language r.options r.locale 1, r.Describes (.alts body (n + 1)) w :=
      fun w hw => describes_alts_of_one (ihbody hp.1 hw)
    refine (ih hp.2 hw).imp_left ?_
    rintro ⟨u, hu, v, rfl, hv⟩
    obtain ⟨u, hu', x, hx, rfl⟩ := Language.mem_mul.mp hu
    exact ⟨u, hu', x ++ v, (List.append_assoc u x v).symm, describes_group hbody hx hv⟩

theorem describes_pattern (hp : p.isRegular = true)
    (hw : w ∈ p.language r.options r.locale 1) : r.Describes (.alts p n) w :=
  describes_alts_of_one (describes_of_mem_language hp hw)

end Reading

end PosixRegex
