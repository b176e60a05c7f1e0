import PosixRegex.Proofs.Program.Caseless
import PosixRegex.Proofs.Search.Skipping

namespace PosixRegex

def Action.LeadsTo (P : Config → Prop) : Action → Prop
  | .go c | .choose _ c => P c
  | .stop _ | .abort _ => True

namespace Matcher

variable {m : Matcher} {s : Subject}

def withSubject (m : Matcher) (s : Subject) : Matcher := { m with subject := s }

/-- In another subject of the same size everything is tested and consumed as before. -/
structure Echoes (m : Matcher) (s : Subject) : Prop where
  size : s.size = m.subject.size
  admits (pos : Nat) : (m.withSubject s).admits pos = m.admits pos
  holds (what : Assertion) (pos : Nat) : (m.withSubject s).holds what pos = m.holds what pos
  consume {i : Inst} (hi : i ∈ m.program.insts) {what : Consumer} (hwhat : i.atom = .consume what)
    (pos : Nat) (slots : Slots) : (m.withSubject s).consume what pos slots = m.consume what pos slots

def Stems (m : Matcher) : Config → Prop
  | .ready _ => True
  | .repeating _ what _ _ _ => ∃ i ∈ m.program.insts, i.atom = .consume what

theorem stems_ready (t : Thread) : m.Stems (.ready t) := trivial

theorem stems_endRepeat (t : Thread) (stops : List Nat) :
    (endRepeat t stops).LeadsTo m.Stems := by
  cases stops <;> trivial

theorem stems_continueRepeat {what : Consumer}
    (hwhat : ∃ i ∈ m.program.insts, i.atom = .consume what) (t : Thread) (times : Repetition) (count : Nat) (stops : List Nat) :
    (continueRepeat t what times count stops).LeadsTo m.Stems := by
  unfold continueRepeat
  split
  · exact stems_endRepeat t stops
  · exact hwhat

theorem stems_enter (t : Thread) (g : Nat) (times : Repetition) :
    (m.enter t g times).LeadsTo m.Stems := by
  unfold enter
  split
  · simp only
    split <;> trivial
  · trivial

theorem stems_leave (t : Thread) (g : Nat) (times : Repetition) :
    (m.leave t g times).LeadsTo m.Stems := by
  unfold leave
  split
  · simp only
    repeat' split
    all_goals trivial
  · trivial

theorem stems_exec (t : Thread) {i : Inst} (hi : i ∈ m.program.insts) :
    (m.exec t i).LeadsTo m.Stems := by
  obtain ⟨atom, times⟩ := i
  cases atom with
  | enter g => exact stems_enter t g times
  | leave g => exact stems_leave t g times
  | branch next => cases next <;> trivial
  | accept | join =>
    simp only [exec]
    split <;> trivial
  | assert what =>
    simp only [exec]
    repeat' split
    all_goals trivial
  | consume what =>
    simp only [exec]
    split
    · split <;> trivial
    · exact stems_continueRepeat ⟨_, hi, rfl⟩ t times 0 []

theorem stems_step {c : Config} (hc : m.Stems c) : (m.step c).LeadsTo m.Stems := by
  cases c with
  | repeating t what times count stops =>
    change (m.repeatOnce t what times count stops).LeadsTo m.Stems
    unfold repeatOnce
    split
    · split
      · exact stems_continueRepeat hc _ _ _ _
      · split
        · exact stems_continueRepeat hc _ _ _ _
        · exact stems_endRepeat _ _
    · split
      · trivial
      · exact stems_endRepeat _ _
  | ready t =>
    simp only [step]
    split
    · trivial
    · rename_i i hi
      exact stems_exec t (Array.mem_of_getElem? hi)

theorem settle_over (h : m.Echoes s) (result : Option Outcome) (k : Checkpoint) :
    (m.withSubject s).settle result k = m.settle result k := by
  cases k with
  | retry => rfl
  | longest marker pos slots best =>
    simp only [settle, withSubject, h.size]
    rfl

theorem unwind_over (h : m.Echoes s) (items : List Checkpoint) (size : Nat)
    (hsize : size = items.length) (result : Option Outcome) :
    (m.withSubject s).unwind items size hsize result = m.unwind items size hsize result := by
  induction items generalizing size result with
  | nil => rfl
  | cons k items ih =>
    unfold unwind
    rw [settle_over h]
    simp only [ih]

theorem exec_over (h : m.Echoes s) (t : Thread) {i : Inst} (hi : i ∈ m.program.insts) :
    (m.withSubject s).exec t i = m.exec t i := by
  have hconsume := @h.consume i hi
  obtain ⟨atom, times⟩ := i
  cases atom with
  | assert what =>
    simp only [exec, h.holds]
    rfl
  | consume what => simp only [exec, hconsume rfl]
  | branch next => cases next <;> rfl
  | accept | enter | leave | join => rfl

theorem step_over (h : m.Echoes s) {c : Config} (hc : m.Stems c) :
    (m.withSubject s).step c = m.step c := by
  cases c with
  | repeating t what times count stops =>
    obtain ⟨i, hi, hwhat⟩ := hc
    simp only [step, repeatOnce, h.consume hi hwhat]
  | ready t =>
    unfold step
    simp only [withSubject]
    split
    · rfl
    · rename_i i hi
      exact exec_over h t (Array.mem_of_getElem? hi)

theorem run_over (h : m.Echoes s) (limits : SearchLimits) (fuel : Nat) {c : Config}
    (hc : m.Stems c) (stack : Stack) :
    (m.withSubject s).run limits fuel c stack = m.run limits fuel c stack := by
  induction fuel generalizing c stack with
  | zero => rfl
  | succ fuel ih =>
    have hnext := stems_step hc
    unfold run
    rw [step_over h hc]
    cases hstep : m.step c with
    | go c =>
      rw [hstep] at hnext
      exact ih hnext stack
    | choose k c =>
      rw [hstep] at hnext
      simp only
      split
      · rfl
      · exact ih hnext _
    | abort why => rfl
    | stop result =>
      simp only [unwind_over h]
      split
      · rfl
      · exact ih (stems_ready _) _
      · rfl

theorem scan_over (h : m.Echoes s) (limits : SearchLimits) (capture count pos fuel : Nat) :
    (m.withSubject s).scan limits capture count pos fuel = m.scan limits capture count pos fuel := by
  induction count generalizing pos fuel with
  | zero => rfl
  | succ count ih =>
    have hsearch : (m.withSubject s).search limits fuel pos = m.search limits fuel pos :=
      run_over h limits fuel (stems_ready _) .empty
    unfold scan
    simp only [h.admits, hsearch, ih]
    rfl

theorem execute_over (h : m.Echoes s) (limits : SearchLimits) (start capture : Nat) :
    (m.withSubject s).execute limits start capture = m.execute limits start capture := by
  have hsize : (m.withSubject s).subject.size = m.subject.size := h.size
  rw [execute, execute, hsize, scan_over h]

end Matcher

theorem Subject.acceptAll_lower {s : Subject} {Ps : List (Char → Bool)}
    (hPs : ∀ P ∈ Ps, Caseless P) (pos : Nat) : s.lower.acceptAll Ps pos = s.acceptAll Ps pos := by
  induction Ps generalizing pos with
  | nil => rfl
  | cons P Ps ih =>
    obtain ⟨hP, hPs⟩ := List.forall_mem_cons.mp hPs
    rw [acceptAll_cons, acceptAll_cons, accept_lower hP]
    exact Option.bind_congr fun next _ => ih hPs next

namespace Matcher

section

variable {m : Matcher} {pos : Nat} {slots : Slots}

theorem captured?_lower (m : Matcher) (slots : Slots) (g : Nat) :
    (m.withSubject m.subject.lower).captured? slots g =
      (m.captured? slots g).map (List.map Char.toLower) := by
  rw [captured?, captured?, Option.map_map]
  exact congrFun (congrArg Option.map (funext fun span => m.subject.slice_lower _ _)) _

variable (hl : m.locale = .posix)

include hl

theorem consume_lower_backRefFold (g : Nat) :
    (m.withSubject m.subject.lower).consume (.backRefFold g) pos slots =
      m.consume (.backRefFold g) pos slots := by
  have hfold : Locale.posix.foldEq = fun a b => b.toLower == a.toLower :=
    funext fun a => funext fun b => Locale.foldEq_posix a b
  have hlower : ∀ cs : List Char,
      (cs.map Char.toLower).map Locale.posix.foldEq = cs.map Locale.posix.foldEq := by
    intro cs
    rw [List.map_map, hfold]
    exact List.map_congr_left fun c _ => funext fun b => by
      simp only [Function.comp_apply, toLower_toLower]
  have hcaseless : ∀ cs : List Char, ∀ P ∈ cs.map Locale.posix.foldEq, Caseless P := by
    intro cs P hP
    obtain ⟨c, -, rfl⟩ := List.mem_map.mp hP
    rw [hfold]
    exact caseless_same c
  have hconsume : ∀ m : Matcher, m.locale = .posix → m.consume (.backRefFold g) pos slots =
      (m.captured? slots g).bind fun cs =>
        m.subject.acceptAll (cs.map Locale.posix.foldEq) pos := fun m hl => hl ▸ rfl
  rw [hconsume m hl, hconsume (m.withSubject m.subject.lower) hl, captured?_lower, Option.bind_map]
  refine Option.bind_congr fun cs _ => ?_
  rw [Function.comp_apply, hlower]
  exact Subject.acceptAll_lower (hcaseless cs) pos

theorem consume_lower {what : Consumer} (h : what.IgnoresCase) :
    (m.withSubject m.subject.lower).consume what pos slots = m.consume what pos slots := by
  have hnewline : Caseless (· != '\n') := by
    intro c
    rw [Bool.eq_iff_iff, bne_iff_ne, bne_iff_ne, ne_eq, toLower_eq_newline_iff]
  cases what with
  | literal c =>
    have hc : Caseless (· == c) := h
    exact Subject.accept_lower hc pos
  | literalFold c d =>
    have hc : Caseless fun x => x == c || x == d := h
    exact Subject.accept_lower hc pos
  | text cs =>
    refine Subject.acceptAll_lower (fun P hP => ?_) pos
    obtain ⟨c, hc, rfl⟩ := List.mem_map.mp hP
    exact h c hc
  | textFold pairs =>
    refine Subject.acceptAll_lower (fun P hP => ?_) pos
    obtain ⟨pair, hpair, rfl⟩ := List.mem_map.mp hP
    exact h pair hpair
  | any => exact Subject.accept_lower (fun _ => rfl) pos
  | anyButNewline => exact Subject.accept_lower hnewline pos
  | narrow set => exact Subject.accept_lower h pos
  | weighted set => exact Subject.accept_lower (fun c => hl ▸ h c) pos
  | backRef g => cases h
  | backRefFold g => exact consume_lower_backRefFold hl g

theorem holds_lower (what : Assertion) (pos : Nat) :
    (m.withSubject m.subject.lower).holds what pos = m.holds what pos := by
  have hnewline : ∀ c? : Option Char, (c?.map Char.toLower == some '\n') = (c? == some '\n') := by
    intro c?
    cases c? with
    | none => rfl
    | some c =>
      rw [Option.map_some, Bool.eq_iff_iff, beq_iff_eq, beq_iff_eq, Option.some.injEq,
        Option.some.injEq, toLower_eq_newline_iff]
  have hword : ∀ c? : Option Char,
      (c?.map Char.toLower).any m.locale.isWord = c?.any m.locale.isWord := by
    rw [hl]
    exact caseless_isWord.any_map
  cases what with
  | lineStart =>
    simp only [holds, atLineStart, withSubject, Subject.charAt?_lower, hnewline]
  | lineEnd =>
    simp only [holds, atLineEnd, withSubject, Subject.charAt?_lower, hnewline, Subject.size_lower]
  | word edge =>
    simp only [holds, atWordEdge, withSubject, Subject.charAt?_lower, Subject.charBefore?_lower,
      hword]

theorem echoes_lower {t : Target} {p : Pattern} (hm : m.program = .ofPattern t p)
    (ht : t.options.ignoreCase = true) (hlocale : t.locale = .posix) (hp : p.Proper [] 1) :
    m.Echoes m.subject.lower where
  size := m.subject.size_lower
  admits := by
    have hbytes := Program.caseless_firstBytes ht hlocale hp
    rw [← hm] at hbytes
    intro pos
    simp only [admits, withSubject, Subject.size_lower, Subject.charAt?_lower, hbytes.any_map]
  holds := holds_lower hl
  consume := by
    intro i hi what hwhat pos slots
    rw [hm] at hi
    exact consume_lower hl (Program.ignoresCase_ofPattern ht hlocale hp i hi what hwhat)

end

/-- Where case is ignored a search does not depend on the case of the ASCII letters of the subject:
two subjects that are equal in lower case have the same results, be they matches or errors. -/
theorem execute_caseless {o : Options} {compileLimits : CompileLimits} {text : List Char}
    {program : Program} (ho : o.ignoreCase = true)
    (hc : Program.compile o .posix compileLimits text = .ok program) {s s' : Subject}
    (hs : s.chars.map Char.toLower = s'.chars.map Char.toLower) (flags : ExecFlags)
    (limits : SearchLimits) (start capture : Nat) :
    (Matcher.mk program .posix s flags).execute limits start capture =
      (Matcher.mk program .posix s' flags).execute limits start capture := by
  obtain ⟨p, hp, rfl⟩ := Program.exists_ofPattern hc
  have hlower : ∀ s, (Matcher.mk (.ofPattern ⟨o, .posix, compileLimits.run⟩ p) .posix s.lower
        flags).execute limits start capture =
      (Matcher.mk (.ofPattern ⟨o, .posix, compileLimits.run⟩ p) .posix s flags).execute limits
        start capture :=
    fun s => execute_over (m := ⟨_, _, s, flags⟩)
      (echoes_lower rfl rfl ho rfl (Pattern.proper_of_read hp)) limits start capture
  rw [← hlower s, ← hlower s', Subject.lower, Subject.lower, hs]

def mixed : Pattern :=
  .group (.leaf (.bracket ⟨false, [.range 'Y' 'b']⟩) .once .done) .once
    (.leaf (.backRef 1) .once .done)

def mixedIn (cs : List Char) : Matcher :=
  ⟨.ofPattern ⟨{ dialect := .extended, ignoreCase := true }, .posix, 255⟩ mixed, .posix,
    .ofList cs, {}⟩

/-- A range with letters of both cases and a reference to one of them. -/
theorem execute_caseless_mixed :
    (mixedIn ['x', 'Y', 'y']).execute {} 0 2 = (mixedIn ['X', 'y', 'Y']).execute {} 0 2 ∧
      (mixedIn ['x', 'Y', 'y']).execute {} 0 2 = .ok (some ⟨[some ⟨1, 3⟩, some ⟨1, 2⟩]⟩) := by
  have hc : Program.compile { dialect := .extended, ignoreCase := true } .posix {}
      "([Y-b])\\1".toList = .ok (mixedIn []).program := by decide +kernel
  exact ⟨execute_caseless rfl hc (by decide +kernel) {} {} 0 2, by decide +kernel⟩

end Matcher

end PosixRegex
