import PosixRegex.Proofs.Program.Placement
import PosixRegex.Proofs.Search.Coverage

namespace PosixRegex

namespace Program

theorem joinsForward_ofPattern (t : Target) (p : Pattern) :
    Matcher.JoinsForward (ofPattern t p) := by
  intro pc g times span hj hg
  obtain ⟨stop, hlaid, haccept, hsize⟩ := laid_ofPattern t p
  have hlt := (Array.getElem?_eq_some_iff.mp hj).1
  have hne : pc ≠ stop := by
    rintro rfl
    rw [haccept] at hj
    cases hj
  obtain ⟨span', -, hg', hstop, -⟩ := hlaid.join_forward (Nat.zero_le pc) (by omega) hj
  rw [hg] at hg'
  cases hg'
  omega

end Program

namespace Matcher

variable {m : Matcher} {t : Target} {p : Pattern}

def startPlace (m : Matcher) (pos : Nat) : Place := ⟨pos, m.startSlots pos⟩

theorem size_startSlots (m : Matcher) (pos : Nat) :
    (m.startSlots pos).size = m.program.groups.size := by
  simp [startSlots]

theorem search_answer {limits : SearchLimits} {fuel pos : Nat} {value : Option Outcome}
    (hp : JoinsForward m.program) (hv : m.play (m.startThread pos) = some value)
    (hlimit : (m.search limits fuel pos).hitsLimit = false) :
    (m.search limits fuel pos).answer? = some value := by
  have hc : m.Tracks pos (.ready (m.startThread pos)) := ⟨Nat.le_refl pos, Nat.le_max_left _ _⟩
  refine run_answer hp hc (fun k hk => nomatch hk) (fun _ => rfl) ?_ hlimit
  · change (m.play (m.startThread pos)).bind some = some value
    rw [hv]
    rfl

theorem size_slots_of_walk (hm : m.program = .ofPattern t p) {pos : Nat} {s : Place}
    (hw : m.Walk t (.alts p 1) (m.startPlace pos) s) : s.slots.size = p.groupCount + 1 := by
  rw [hw.size_eq, startPlace, size_startSlots, hm, Program.size_groups_ofPattern]

theorem play_of_walk (hm : m.program = .ofPattern t p) {stop : Nat}
    (haccept : m.program.insts[stop]? = some (.ofAtom .accept)) {pos : Nat} {s : Place}
    (hw : m.Walk t (.alts p 1) (m.startPlace pos) s) :
    m.play (s.thread stop) = some (some ⟨s.pos, s.slots.close 0 s.pos⟩) := by
  have hsize := size_slots_of_walk hm hw
  exact play_accept (t := s.thread stop) haccept
    (Array.getElem?_eq_getElem (show 0 < s.slots.size by omega))

theorem play_start (hm : m.program = .ofPattern t p) (pos : Nat) :
    ∃ stop result, m.program.insts[stop]? = some (.ofAtom .accept) ∧
      m.play (m.startThread pos) = some result ∧
      m.Found stop (m.Walk t (.alts p 1) (m.startPlace pos))
        (m.Fits (m.startPlace pos) ∧ m.Clear t p 1 stop) result := by
  obtain ⟨stop, hlaid, haccept, -⟩ := Program.laid_ofPattern t p
  rw [← hm] at hlaid haccept
  have hserves := (covers_of_laid hlaid).serves (m.startPlace pos) (size_startSlots m pos)
  obtain ⟨result, hplay, hf⟩ := hserves fun s hs => ⟨_, play_of_walk hm haccept hs⟩
  exact ⟨stop, result, haccept, hplay, hf⟩

theorem eq_of_search (hm : m.program = .ofPattern t p) {limits : SearchLimits} {fuel pos : Nat}
    {result value : Option Outcome} (h : (m.search limits fuel pos).result = .ok result)
    (hv : m.play (m.startThread pos) = some value) : value = result := by
  have hlimit : (m.search limits fuel pos).hitsLimit = false := by
    simp [Ended.hitsLimit, h]
  have hanswer := search_answer (hm ▸ Program.joinsForward_ofPattern t p) hv hlimit
  simpa only [Ended.answer?, h, Option.some.injEq, eq_comm] using hanswer

/-- The search with checkpoints refines the recursion, for every compiled program. -/
theorem search_refines_play {o : Options} {l : Locale} {compileLimits : CompileLimits}
    {text : List Char} (hc : Program.compile o l compileLimits text = .ok m.program)
    (limits : SearchLimits) (fuel pos : Nat)
    (hlimit : (m.search limits fuel pos).hitsLimit = false) :
    ∃ result, m.play (m.startThread pos) = some result ∧
      (m.search limits fuel pos).answer? = some result := by
  obtain ⟨p, -, hm⟩ := Program.exists_ofPattern hc
  obtain ⟨-, result, -, hplay, -⟩ := play_start hm pos
  have hforward : JoinsForward m.program := hm ▸ Program.joinsForward_ofPattern _ p
  exact ⟨result, hplay, search_answer hforward hplay hlimit⟩

def branching : Pattern :=
  .group (.leaf (.char 'a') .once (.bar (.leaf (.char 'a') .once (.leaf (.char 'b') .once .done))))
    .star (.leaf (.char 'c') .once .done)

def branchingIn (cs : List Char) : Matcher :=
  ⟨.ofPattern ⟨{ dialect := .extended }, .posix, 255⟩ branching, .posix, .ofList cs, {}⟩

theorem search_refines_play_branching :
    ∃ result, (branchingIn ['a', 'b', 'c']).play ((branchingIn ['a', 'b', 'c']).startThread 0) =
        some result ∧
      ((branchingIn ['a', 'b', 'c']).search {} 100 0).answer? = some result :=
  search_refines_play (m := branchingIn ['a', 'b', 'c'])
    (show Program.compile { dialect := .extended } .posix {}
        ['(', 'a', '|', 'a', 'b', ')', '*', 'c']
      = .ok (branchingIn ['a', 'b', 'c']).program by decide)
    {} 100 0 (by decide +kernel)

end Matcher

end PosixRegex
