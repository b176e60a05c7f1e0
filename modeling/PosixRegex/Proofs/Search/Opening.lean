import PosixRegex.Proofs.Pattern.Shape
import PosixRegex.Proofs.Search.Meaning

namespace PosixRegex

namespace Matcher

variable {m : Matcher} {t : Target} {pos mid next stop n : Nat} {slots : Slots} {what : Leaf}
  {around : List Nat} {times : Repetition} {first first' : Char → Prop} {s s' : Place} {part : Part}

/-- The text from `pos` up to `stop` is empty or starts with one of the characters in `first`. -/
structure Opens (m : Matcher) (first : Char → Prop) (pos stop : Nat) : Prop where
  le : pos ≤ stop
  starts (hlt : pos < stop) : ∃ c, m.subject.charAt? pos = some c ∧ first c

namespace Opens

theorem refl : m.Opens first pos pos :=
  ⟨Nat.le_refl pos, fun hlt => absurd hlt (Nat.lt_irrefl pos)⟩

theorem mono (h : m.Opens first pos stop) (hfirst : ∀ c, first c → first' c) :
    m.Opens first' pos stop :=
  ⟨h.le, fun hlt => (h.starts hlt).imp fun c hc => ⟨hc.1, hfirst c hc.2⟩⟩

theorem trans {both : Char → Prop} (h : m.Opens first pos mid) (h' : m.Opens first' mid stop)
    (hfirst : ∀ c, first c → both c) (hfirst' : mid = pos → ∀ c, first' c → both c) :
    m.Opens both pos stop := by
  refine ⟨Nat.le_trans h.le h'.le, fun hlt => ?_⟩
  by_cases hpos : mid = pos
  · subst hpos
    exact (h'.mono (hfirst' rfl)).starts hlt
  · exact (h.mono hfirst).starts (Nat.lt_of_le_of_ne h.le (Ne.symm hpos))

end Opens

theorem exists_charAt?_of_backRef {g : Nat}
    (h : m.consume (t.consumer (.backRef g)) pos slots = some next) (hlt : pos < next) :
    ∃ c, m.subject.charAt? pos = some c := by
  rw [consume_backRef] at h
  obtain ⟨cs, -, hall⟩ := Option.bind_eq_some_iff.mp h
  cases cs with
  | nil =>
    cases hall
    exact absurd hlt (Nat.lt_irrefl pos)
  | cons c cs =>
    obtain ⟨mid, hmid, -⟩ := Option.bind_eq_some_iff.mp hall
    obtain ⟨x, hx, -⟩ := Subject.accept_eq_some_iff.mp hmid
    exact ⟨x, hx⟩

theorem exists_admits_of_consume (hm : m.Suits t) (hwhat : what.Proper around)
    (hsingle : what.isBackRef = false) (h : m.consume (t.consumer what) pos slots = some next) :
    ∃ c, m.subject.Spells pos next [c] ∧ what.Admits t.options t.locale c := by
  have htakes : (m.reading t).Takes (fun _ => none) pos next what := by
    cases what with
    | char c => exact (consume_char_iff hm c).mp h
    | any => exact consume_any_iff.mp h
    | bracket b => exact (consume_bracket_iff hm hwhat).mp h
    | backRef g => cases hsingle
  rw [← hm.locale]
  cases what with
  | char | any | bracket => exact htakes
  | backRef g => cases hsingle

theorem opens_of_consume (hm : m.Suits t) (hwhat : what.Proper around)
    (h : m.consume (t.consumer what) pos slots = some next) :
    m.Opens (what.Starts t.options t.locale) pos next := by
  refine ⟨(consume_bounds h).1, fun hlt => ?_⟩
  cases hsingle : what.isBackRef with
  | false =>
    obtain ⟨c, hspells, hc⟩ := exists_admits_of_consume hm hwhat hsingle h
    refine ⟨c, (Subject.spells_singleton.mp hspells).1, ?_⟩
    cases what with
    | char | any | bracket => exact hc
    | backRef => trivial
  | true =>
    cases what with
    | char | any | bracket => cases hsingle
    | backRef g => exact (exists_charAt?_of_backRef h hlt).imp fun c hc => ⟨hc, trivial⟩

theorem isSingle_consumer (h : what.isBackRef = false) : (t.consumer what).isSingle = true := by
  cases what with
  | char c =>
    simp only [Target.consumer, Target.literal]
    split <;> rfl
  | any =>
    simp only [Target.consumer]
    split <;> rfl
  | bracket b =>
    simp only [Target.consumer, Bracket.consumer]
    split <;> rfl
  | backRef g => cases h

theorem isBackRef_of_consume (h : m.consume (t.consumer what) pos slots = some pos) :
    what.isBackRef = true := by
  cases hsingle : what.isBackRef with
  | true => rfl
  | false =>
    have hbounds := consume_bounds_of_isSingle (isSingle_consumer hsingle) h
    exact absurd hbounds.1 (Nat.lt_irrefl pos)

theorem mayBeEmpty_of_repeats (h : m.Repeats (t.consumer what) times slots 0 pos pos) :
    (times.min == 0 || what.isBackRef) = true := by
  cases h with
  | stop hmin => simp [Nat.le_zero.mp hmin]
  | need _ hc hnext | more _ _ hc _ hnext =>
    obtain rfl := Nat.le_antisymm hnext.bounds.1 (consume_bounds hc).1
    rw [isBackRef_of_consume hc, Bool.or_true]

theorem opens_of_repeats {count : Nat} (hm : m.Suits t) (hwhat : what.Proper around)
    (h : m.Repeats (t.consumer what) times slots count pos next) :
    m.Opens (what.Starts t.options t.locale) pos next := by
  induction h with
  | stop => exact .refl
  | need _ hc _ ih | more _ _ hc _ _ ih =>
    exact (opens_of_consume hm hwhat hc).trans ih (fun _ => id) fun _ _ => id

theorem Walk.mayBeEmpty (h : m.Walk t part s s') (hpos : s'.pos = s.pos) :
    part.mayBeEmpty = true := by
  induction h with
  | done | bar => rfl
  | @leaf what times rest n next s s' hr hrest ih =>
    have h₁ := hr.bounds.1
    have h₂ := hrest.bounds.1
    simp only at h₂
    obtain rfl : next = s.pos := by omega
    simp only [Part.mayBeEmpty, Pattern.isNullable, Bool.true_and] at ih ⊢
    rw [mayBeEmpty_of_repeats hr]
    exact ih hpos
  | assert _ _ ih => exact ih hpos
  | skip hmin _ ih =>
    simp only [Part.mayBeEmpty, Pattern.isNullable, hmin] at ih ⊢
    exact ih hpos
  | group hrounds hrest ih₁ ih₂ =>
    have h₁ := hrounds.bounds.1
    have h₂ := hrest.bounds.1
    simp only [Part.mayBeEmpty, Pattern.isNullable] at ih₁ ih₂ h₁ ⊢
    rw [ih₁ (by omega), Bool.or_true]
    exact ih₂ (by omega)
  | once _ ih | empty _ _ _ _ ih | enough _ _ _ _ ih => exact ih hpos
  | again _ hbody hne _ hrest ih₁ _ =>
    have h₁ := hbody.bounds.1
    have h₂ := hrest.bounds.1
    simp only at h₂
    exact ih₁ (by omega)
  | here _ ih => exact ih hpos
  | later hp _ ih => exact Pattern.isNullable_of_afterBar hp (ih hpos)

/-- What a walk through a part passes over starts as the part does, or as what follows if the part
has been empty. -/
def Opening (m : Matcher) (t : Target) : Part → Place → Place → Prop
  | .seq p n, s, s' => ∀ ⦃around after stop⦄, p.Proper around n → m.Opens after s'.pos stop →
      m.Opens (fun c => p.Leads t.options t.locale after c) s.pos stop
  | .alts p n, s, s' | .chain p n, s, s' => ∀ ⦃around⦄, p.Proper around n →
      m.Opens (fun c => p.Starts t.options t.locale c true) s.pos s'.pos
  | .rounds body _ g _, s, s' => ∀ ⦃around⦄, body.Proper around (g + 1) →
      m.Opens (fun c => body.Starts t.options t.locale c true) s.pos s'.pos

theorem Walk.opening (hm : m.Suits t) (h : m.Walk t part s s') : m.Opening t part s s' := by
  induction h with
  | done | bar => exact fun _ _ _ _ hstop => hstop
  | @leaf what times rest n next s s' hr hrest ih =>
    intro around after stop hproper hstop
    refine (opens_of_repeats hm hproper.1 hr).trans (ih hproper.2.2 hstop) (fun _ => Or.inl) ?_
    intro hpos c hc
    subst hpos
    exact Or.inr ⟨mayBeEmpty_of_repeats hr, hc⟩
  | assert _ _ ih => exact ih
  | skip hmin _ ih =>
    intro around after stop hproper hstop
    refine (ih hproper.2.2 hstop).mono fun c hc => Or.inr ⟨?_, hc⟩
    simp [hmin]
  | @group body _ _ _ _ _ _ hrounds hrest ih₁ ih₂ =>
    intro around after stop hproper hstop
    refine (ih₁ hproper.1).trans (ih₂ hproper.2.2 hstop) (fun _ => Or.inl) ?_
    intro hpos c hc
    have hempty : body.isNullable true true = true := hrounds.mayBeEmpty hpos
    exact Or.inr ⟨by rw [hempty, Bool.or_true], hc⟩
  | once _ ih | empty _ _ _ _ ih | enough _ _ _ _ ih => exact ih
  | again _ hbody hne _ hrest ih₁ ih₂ =>
    intro around hproper
    exact (ih₁ hproper).trans (ih₂ hproper) (fun _ => id) fun hpos => absurd hpos hne
  | here hseq ih =>
    intro around hproper
    exact (ih hproper Opens.refl).mono fun c => Pattern.starts_of_leads
  | later hp hq ih =>
    intro around hproper
    exact (ih (Pattern.proper_of_afterBar hp hproper)).mono fun c =>
      Pattern.starts_of_afterBar hp

end Matcher

end PosixRegex
