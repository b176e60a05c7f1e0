import PosixRegex.Proofs.Pattern.Limits
import PosixRegex.Proofs.Search.FirstMatch
import PosixRegex.Proofs.Search.Mirror

namespace PosixRegex

variable {o : Options} {l : Locale}

theorem Target.consumer_run (run run' : Nat) (what : Leaf) :
    Target.consumer ⟨o, l, run⟩ what = Target.consumer ⟨o, l, run'⟩ what := by
  cases what <;> rfl

namespace Matcher

theorem firstFound_run (run run' : Nat) (p : Pattern) (s : Subject) (flags : ExecFlags)
    (start : Nat) :
    (Matcher.mk (.ofPattern ⟨o, l, run⟩ p) l s flags).firstFound ⟨o, l, run⟩ p start =
      (Matcher.mk (.ofPattern ⟨o, l, run'⟩ p) l s flags).firstFound ⟨o, l, run'⟩ p start := by
  have hgroups : (Program.ofPattern ⟨o, l, run⟩ p).groups.size =
      (Program.ofPattern ⟨o, l, run'⟩ p).groups.size := by
    simp only [Program.size_groups_ofPattern]
  have hfound : (Matcher.mk (.ofPattern ⟨o, l, run⟩ p) l s flags).found ⟨o, l, run⟩ p =
      (Matcher.mk (.ofPattern ⟨o, l, run'⟩ p) l s flags).found ⟨o, l, run'⟩ p := by
    refine found_congr rfl hgroups (fun what pos => ?_) fun what _ pos slots => ?_
    · cases what <;> rfl
    · rw [Target.consumer_run run run']
      rfl
  exact congrArg (List.findSome? · _) hfound

/-- Neither the length of a run of literal characters nor the number of instructions is seen in what
is accepted and found. Unless a pattern is too large for the limits, which cannot be where they admit
three instructions for each character, it is accepted or rejected for the same reason; and the
programs find the same spans wherever no search reaches a limit. -/
theorem execute_coalesced (o : Options) (l : Locale) (limits limits' : CompileLimits)
    (text : List Char) :
    ((∀ e, Program.compile o l limits text = .error e ↔
        Program.compile o l limits' text = .error e) ∨
      limits.instructions < 3 * text.length + 2 ∧ Outgrown (Program.compile o l limits text) ∨
      limits'.instructions < 3 * text.length + 2 ∧ Outgrown (Program.compile o l limits' text)) ∧
    ∀ p q, Program.compile o l limits text = .ok p → Program.compile o l limits' text = .ok q →
      ∀ (s : Subject) (flags : ExecFlags) (search search' : SearchLimits) (start capture : Nat),
        WithinLimits ((Matcher.mk p l s flags).execute search start capture) →
        WithinLimits ((Matcher.mk q l s flags).execute search' start capture) →
        ∃ found, (Matcher.mk p l s flags).execute search start capture = .ok found ∧
          (Matcher.mk q l s flags).execute search' start capture = .ok found := by
  have hcompile : ∀ limits : CompileLimits, Program.compile o l limits text =
      (Pattern.read o.dialect limits text).map (Program.ofPattern ⟨o, l, limits.run⟩) := by
    intro limits
    unfold Program.compile
    cases Pattern.read o.dialect limits text <;> rfl
  have hread := Pattern.read_limits o.dialect limits limits' text
  constructor
  · rw [hcompile, hcompile]
    refine hread.imp (fun hsame e => ?_) (Or.imp (And.imp_right (·.map _))
      (And.imp_right (·.map _)))
    rw [hsame]
    cases Pattern.read o.dialect limits' text with
    | error e' => rfl
    | ok p => exact ⟨fun h => (nomatch h), fun h => (nomatch h)⟩
  · intro first second hfirst hsecond s flags search search' start capture hlimit hlimit'
    have hconnected := Program.connected_of_compile hfirst
    have hconnected' := Program.connected_of_compile hsecond
    obtain ⟨p, hp, rfl⟩ := Program.exists_ofPattern hfirst
    obtain ⟨q, hq, rfl⟩ := Program.exists_ofPattern hsecond
    have hpq : p = q := by
      obtain hsame | ⟨-, offset, hlarge⟩ | ⟨-, offset, hlarge⟩ := hread
      · exact Except.ok.inj (hp.symm.trans (hsame.trans hq))
      · cases hp.symm.trans hlarge
      · cases hq.symm.trans hlarge
    subst hpq
    refine ⟨_, execute_eq_firstFound rfl hconnected hlimit, ?_⟩
    rw [execute_eq_firstFound rfl hconnected' hlimit']
    exact congrArg (fun found => Except.ok (report _ capture found))
      (firstFound_run limits'.run limits.run p s flags start)

def spelled (run : Nat) : Program :=
  .ofPattern ⟨{ dialect := .extended }, .posix, run⟩
    (.leaf (.char 'a') .once (.leaf (.char 'b') .once (.leaf (.char 'c') .star .done)))

/-- The first two letters share an instruction, or each of them has its own one. -/
theorem execute_coalesced_spelled :
    (spelled 255).insts.size = 3 ∧ (spelled 1).insts.size = 4 ∧
    ∃ found, (Matcher.mk (spelled 255) .posix (.ofList ['x', 'a', 'b', 'c', 'c', 'd']) {}).execute
          {} 0 1 = .ok found ∧
      (Matcher.mk (spelled 1) .posix (.ofList ['x', 'a', 'b', 'c', 'c', 'd']) {}).execute
          {} 0 1 = .ok found ∧
      found = some ⟨[some ⟨1, 5⟩]⟩ := by
  have hruns : Program.compile { dialect := .extended } .posix {} "abc*".toList =
      .ok (spelled 255) := by decide
  have hsingle : Program.compile { dialect := .extended } .posix ⟨65535, 1⟩ "abc*".toList =
      .ok (spelled 1) := by decide
  obtain ⟨-, h⟩ := execute_coalesced { dialect := .extended } .posix {} ⟨65535, 1⟩ "abc*".toList
  obtain ⟨found, hfound, hfound'⟩ := h _ _ hruns hsingle (.ofList ['x', 'a', 'b', 'c', 'c', 'd'])
    {} {} {} 0 1 (.of_isOk (by decide +kernel)) (.of_isOk (by decide +kernel))
  refine ⟨by decide, by decide, found, hfound, hfound', ?_⟩
  have hrun : (Matcher.mk (spelled 255) .posix
      (.ofList ['x', 'a', 'b', 'c', 'c', 'd']) {}).execute {} 0 1 = .ok (some ⟨[some ⟨1, 5⟩]⟩) := by
    decide +kernel
  exact Except.ok.inj (hfound.symm.trans hrun)

end Matcher

end PosixRegex
