import PosixRegex.Proofs.Search.FirstMatch
import PosixRegex.Proofs.Search.LeftmostLongest
import PosixRegex.Regex

namespace PosixRegex

namespace Subject

variable {s : Subject} {pos : Nat}

theorem length_lt_of_lt {xs ys xs' ys' : List Char} (h : s.chars = xs ++ ys)
    (h' : s.chars = xs' ++ ys') (hlt : byteLength xs < byteLength xs') :
    ys'.length < ys.length := by
  obtain ⟨as, rfl, rfl⟩ | ⟨bs, rfl, rfl⟩ := List.append_eq_append_iff.mp (h.symm.trans h')
  · cases as with
    | nil => simp at hlt
    | cons a as =>
      rw [List.length_append, List.length_cons]
      omega
  · rw [byteLength_append] at hlt
    omega

theorem eq_size_of_isBoundary (h : s.isBoundary pos = true) (hnone : s.charAt? pos = none) :
    pos = s.size := by
  simpa [isBoundary, hnone] using h

end Subject

namespace Match

/-- Where an item of an iteration may stand: a match before those that start behind it, at its end
or later, and an error before nothing. -/
def Precedes : Except SearchError Match → Except SearchError Match → Prop
  | .ok a, .ok b => a.span.start < b.span.start ∧ a.span.stop ≤ b.span.start
  | .ok _, .error _ => True
  | .error _, _ => False

/-- The match starts at `pos`, or `pos` is inside of it. -/
def Covers (a : Match) (pos : Nat) : Prop :=
  a.span.start = pos ∨ a.span.start < pos ∧ pos < a.span.stop

structure Placed (s : Subject) (start : Nat) (a : Match) : Prop where
  subject : a.subject = s
  start_le : start ≤ a.span.start
  le : a.span.start ≤ a.span.stop
  isBoundary_start : s.isBoundary a.span.start = true
  isBoundary_stop : s.isBoundary a.span.stop = true

end Match

open Match

namespace Regex

variable {r : Regex} {s : Subject} {flags : ExecFlags} {t : Target} {p : Pattern}
  {start next : Nat} {a : Match} {items items' : List (Except SearchError Match)}

/-- What an iteration yields that is never cut short. -/
inductive Yields (r : Regex) (s : Subject) (flags : ExecFlags) :
    Nat → List (Except SearchError Match) → Prop
  | error {start : Nat} {e : SearchError} (h : r.findAt s start flags = .error e) :
      Yields r s flags start [.error e]
  | nothing {start : Nat} (h : r.findAt s start flags = .ok none) : Yields r s flags start []
  | last {start : Nat} {a : Match} (h : r.findAt s start flags = .ok (some a))
      (hresume : resumeAfter a = none) : Yields r s flags start [.ok a]
  | next {start next : Nat} {a : Match} {items : List (Except SearchError Match)}
      (h : r.findAt s start flags = .ok (some a)) (hresume : resumeAfter a = some next)
      (later : Yields r s flags next items) : Yields r s flags start (.ok a :: items)

theorem execute_of_findAt {found : Option Match} (h : r.findAt s start flags = .ok found) :
    (r.matcher s flags).execute r.limits start r.allCaptures =
        .ok (found.map Match.captures) ∧
      ∀ a ∈ found, a.subject = s := by
  rw [findAt_eq_map] at h
  cases hx : (r.matcher s flags).execute r.limits start r.allCaptures with
  | error e =>
    rw [hx] at h
    cases h
  | ok caps =>
    rw [hx] at h
    cases h
    cases caps with
    | none => exact ⟨rfl, by simp⟩
    | some caps => exact ⟨rfl, by simp⟩

theorem placed_of_findAt (hm : r.program = .ofPattern t p)
    (h : r.findAt s start flags = .ok (some a)) : Placed s start a := by
  obtain ⟨hx, hsubject⟩ := execute_of_findAt h
  obtain ⟨slots, hstart, hboundary, hw⟩ := Matcher.exists_walk_of_execute hm hx
  exact ⟨hsubject a rfl, hstart, hw.bounds.1, hboundary, hw.isBoundary hboundary⟩

theorem lt_of_resumeAfter (ha : Placed s start a) (h : resumeAfter a = some next) :
    a.span.start < next ∧ a.span.stop ≤ next ∧ s.isBoundary next = true ∧
      ∀ pos, s.isBoundary pos = true → a.span.start < pos → pos < next → pos < a.span.stop := by
  unfold resumeAfter at h
  by_cases hempty : a.span.isEmpty = true
  · rw [if_pos hempty, Subject.decode?, Option.map_map, ha.subject] at h
    obtain ⟨c, hc, rfl⟩ := Option.map_eq_some_iff.mp h
    have hwidth := c.utf8Size_pos
    have hspan : a.span.start = a.span.stop := by simpa [Span.isEmpty] using hempty
    refine ⟨?_, Nat.le_add_right _ _, Subject.isBoundary_add_of_charAt? hc, fun pos hpos hlt => ?_⟩
    · simp only [Function.comp_apply]
      omega
    · have hnext := Subject.add_utf8Size_le_of_isBoundary hc hpos (hspan ▸ hlt)
      intro hlt'
      exact absurd hnext (Nat.not_le_of_lt hlt')
  · rw [if_neg hempty] at h
    cases h
    have hspan : a.span.start ≠ a.span.stop := by simpa [Span.isEmpty] using hempty
    have hle := ha.le
    exact ⟨by omega, Nat.le_refl _, ha.isBoundary_stop, fun pos _ _ hlt => hlt⟩

theorem eq_size_of_resumeAfter (ha : Placed s start a) (h : resumeAfter a = none) :
    a.span.start = s.size := by
  unfold resumeAfter at h
  by_cases hempty : a.span.isEmpty = true
  · rw [if_pos hempty, Subject.decode?, Option.map_map, ha.subject] at h
    have hspan : a.span.start = a.span.stop := by simpa [Span.isEmpty] using hempty
    rw [hspan]
    exact Subject.eq_size_of_isBoundary ha.isBoundary_stop (Option.map_eq_none_iff.mp h)
  · rw [if_neg hempty] at h
    cases h

namespace Yields

/-- What is yielded does not depend on how many items there could be. -/
theorem matchesFrom_eq (h : r.Yields s flags start items) {count : Nat}
    (hcount : items.length ≤ count) : r.matchesFrom s flags count start = items := by
  induction h generalizing count with
  | nothing h =>
    cases count with
    | zero => rfl
    | succ count => simp [matchesFrom, h]
  | error h =>
    obtain ⟨count, rfl⟩ := Nat.exists_eq_add_one.mpr hcount
    simp [matchesFrom, h]
  | last h hresume =>
    obtain ⟨count, rfl⟩ := Nat.exists_eq_add_one.mpr hcount
    simp [matchesFrom, h, hresume]
  | next h hresume later ih =>
    obtain ⟨count, rfl⟩ := Nat.exists_eq_add_one.mpr (Nat.zero_lt_of_lt hcount)
    simp [matchesFrom, h, hresume, ih (Nat.le_of_succ_le_succ hcount)]

theorem pairwise (hm : r.program = .ofPattern t p) (h : r.Yields s flags start items) :
    (∀ a, .ok a ∈ items → start ≤ a.span.start) ∧ items.Pairwise Precedes := by
  induction h with
  | error h => exact ⟨by simp, List.pairwise_singleton _ _⟩
  | nothing h => exact ⟨by simp, .nil⟩
  | last h hresume =>
    refine ⟨fun a ha => ?_, List.pairwise_singleton _ _⟩
    cases List.mem_singleton.mp ha
    exact (placed_of_findAt hm h).start_le
  | @next start next a items h hresume later ih =>
    obtain ⟨hlater, hitems⟩ := ih
    have ha := placed_of_findAt hm h
    obtain ⟨hlt, hle, -⟩ := lt_of_resumeAfter ha hresume
    have hstart := ha.start_le
    constructor
    · intro b hb
      obtain hb | hb := List.mem_cons.mp hb
      · cases hb
        exact hstart
      · have := hlater b hb
        omega
    · refine List.pairwise_cons.mpr ⟨fun item hitem => ?_, hitems⟩
      cases item with
      | error e => trivial
      | ok b =>
        have := hlater b hitem
        exact ⟨by omega, by omega⟩

theorem length_le (hm : r.program = .ofPattern t p) (h : r.Yields s flags start items)
    {xs ys : List Char} (hs : s.chars = xs ++ ys) (hstart : byteLength xs = start) :
    items.length ≤ ys.length + 1 := by
  induction h generalizing xs ys with
  | error h => exact Nat.le_add_left 1 ys.length
  | nothing h => exact Nat.zero_le _
  | last h hresume => exact Nat.le_add_left 1 ys.length
  | next h hresume later ih =>
    have ha := placed_of_findAt hm h
    obtain ⟨hlt, -, hboundary, -⟩ := lt_of_resumeAfter ha hresume
    obtain ⟨xs', ys', hs', hnext⟩ := Subject.isBoundary_iff.mp hboundary
    have hstart_le := ha.start_le
    have hfewer := Subject.length_lt_of_lt hs hs' (by omega)
    have hitems := ih hs' hnext
    rw [List.length_cons]
    omega

theorem covers (hm : r.program = .ofPattern t p) (hp : r.program.Connected)
    (h : r.Yields s flags start items) (hok : ∀ e, .error e ∉ items) {pos : Nat}
    (hpos : s.isBoundary pos = true) (hstart : start ≤ pos) {place : Place}
    (hw : (r.matcher s flags).Walk t (.alts p 1) ((r.matcher s flags).startPlace pos) place) :
    ∃ a, .ok a ∈ items ∧ a.Covers pos := by
  induction h with
  | error h => exact absurd List.mem_cons_self (hok _)
  | nothing h =>
    obtain ⟨hx, -⟩ := execute_of_findAt h
    exact absurd hw (Matcher.not_walk_of_execute hm hp hx hstart hpos place)
  | @last start a h hresume =>
    have ha := placed_of_findAt hm h
    obtain ⟨hx, -⟩ := execute_of_findAt h
    have hend := eq_size_of_resumeAfter ha hresume
    have hsize := Subject.le_size_of_isBoundary hpos
    by_cases hlt : pos < a.span.start
    · exact absurd hw (Matcher.not_walk_before hm hx hstart hlt hpos place)
    · exact ⟨a, List.mem_cons_self, Or.inl (by omega)⟩
  | @next start next a items h hresume later ih =>
    have ha := placed_of_findAt hm h
    obtain ⟨hx, -⟩ := execute_of_findAt h
    obtain ⟨-, -, -, hinside⟩ := lt_of_resumeAfter ha hresume
    obtain hlt | rfl | hgt := Nat.lt_trichotomy pos a.span.start
    · exact absurd hw (Matcher.not_walk_before hm hx hstart hlt hpos place)
    · exact ⟨a, List.mem_cons_self, Or.inl rfl⟩
    · by_cases hnext : pos < next
      · exact ⟨a, List.mem_cons_self, Or.inr ⟨hgt, hinside pos hpos hgt hnext⟩⟩
      · obtain ⟨b, hb, hcovers⟩ := ih (fun e he => hok e (List.mem_cons_of_mem _ he)) (by omega)
        exact ⟨b, List.mem_cons_of_mem _ hb, hcovers⟩

end Yields

/-- The iteration is not cut short if there is room for the characters that are left. -/
theorem yields_matchesFrom (hm : r.program = .ofPattern t p) {xs ys : List Char}
    (hs : s.chars = xs ++ ys) (hstart : byteLength xs = start) {count : Nat}
    (hcount : ys.length < count) : r.Yields s flags start (r.matchesFrom s flags count start) := by
  induction count generalizing start xs ys with
  | zero => exact absurd hcount (Nat.not_lt_zero _)
  | succ count ih =>
    rw [matchesFrom]
    cases h : r.findAt s start flags with
    | error e => exact .error h
    | ok found =>
      cases found with
      | none => exact .nothing h
      | some a =>
        have ha := placed_of_findAt hm h
        simp only
        cases hresume : resumeAfter a with
        | none => exact .last h hresume
        | some next =>
          obtain ⟨hlt, -, hboundary, -⟩ := lt_of_resumeAfter ha hresume
          obtain ⟨xs', ys', hs', hnext⟩ := Subject.isBoundary_iff.mp hboundary
          have hstart_le := ha.start_le
          have hfewer := Subject.length_lt_of_lt hs hs' (by omega)
          exact .next h hresume (ih hs' hnext (by omega))

/-- The iteration over all matches ends by itself, with at most one item more than the subject has
characters. The matches are in order and do not overlap, and an error comes last. If there is none,
each boundary at which a search succeeds is the start of a match or inside of one. -/
theorem matchesOf_complete {o : Options} {l : Locale} {text : String}
    {compileLimits : CompileLimits} {limits : SearchLimits}
    (hr : compile o l text compileLimits limits = .ok r) (s : Subject) (flags : ExecFlags) :
    (∀ count, s.chars.length < count → r.matchesFrom s flags count 0 = r.matchesOf s flags) ∧
    (r.matchesOf s flags).length ≤ s.chars.length + 1 ∧
    (r.matchesOf s flags).Pairwise Precedes ∧
    ((∀ e, .error e ∉ r.matchesOf s flags) → ∀ pos searchLimits fuel outcome,
      s.isBoundary pos = true →
      ((r.matcher s flags).search searchLimits fuel pos).result = .ok (some outcome) →
      ∃ a, .ok a ∈ r.matchesOf s flags ∧ a.Covers pos) := by
  obtain ⟨program, hprogram, hr⟩ := exists_of_bind_eq_ok hr
  cases hr
  have hconnected := Program.connected_of_compile hprogram
  obtain ⟨p, hp, hm⟩ := Program.exists_ofPattern hprogram
  let r : Regex := ⟨program, l, limits⟩
  have hroom : s.chars.length < s.size + 1 := by
    rw [s.size_eq]
    exact Nat.lt_succ_of_le (length_le_byteLength s.chars)
  have hchars : s.chars = [] ++ s.chars := rfl
  have hyields : r.Yields s flags 0 (r.matchesOf s flags) :=
    yields_matchesFrom hm hchars rfl hroom
  have hlength : (r.matchesOf s flags).length ≤ s.chars.length + 1 :=
    hyields.length_le hm hchars rfl
  refine ⟨fun count hcount => hyields.matchesFrom_eq (Nat.le_trans hlength hcount), hlength,
    (hyields.pairwise hm).2, fun hok pos searchLimits fuel outcome hpos hfound => ?_⟩
  obtain ⟨place, hw, -⟩ := Matcher.search_some (m := r.matcher s flags) hm hfound
  exact hyields.covers hm hconnected hok hpos (Nat.zero_le pos) hw

def starred : Regex :=
  ⟨.ofPattern ⟨{ dialect := .extended }, .posix, 255⟩ (.leaf (.char 'a') .star .done), .posix, {}⟩

/-- There is an empty match before each of the first two letters, and then one that the second `a`
is inside of. -/
theorem matchesOf_complete_starred :
    ∃ a, .ok a ∈ starred.matchesOf (.ofList ['b', 'é', 'a', 'a']) {} ∧ a.Covers 4 := by
  have hprogram : Program.compile { dialect := .extended } .posix {} "a*".toList =
      .ok starred.program := by decide
  have hr : compile { dialect := .extended } .posix "a*" = .ok starred := by
    rw [compile, hprogram]
    rfl
  have hok : ∀ item ∈ starred.matchesOf (.ofList ['b', 'é', 'a', 'a']) {}, item.isOk = true := by
    decide +kernel
  have hfound : ((starred.matcher (.ofList ['b', 'é', 'a', 'a']) {}).search {} 100 4).result =
      .ok (some ⟨5, #[⟨0, some 4, some 5⟩]⟩) := by decide +kernel
  obtain ⟨-, -, -, hcovers⟩ := matchesOf_complete hr (.ofList ['b', 'é', 'a', 'a']) {}
  refine hcovers (fun e he => ?_) 4 {} 100 _ (by decide) hfound
  cases hok _ he

end Regex

end PosixRegex
