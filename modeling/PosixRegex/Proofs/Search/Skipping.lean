import PosixRegex.Proofs.Search.Admission
import PosixRegex.Proofs.Search.Fuel
import PosixRegex.Proofs.Search.Safety
import PosixRegex.Proofs.Search.Scan

namespace PosixRegex

/-- The boundaries of characters among `count` places from `pos` on. -/
def Subject.boundaries (s : Subject) (pos count : Nat) : List Nat :=
  (List.range' pos count).filter s.isBoundary

theorem Subject.mem_boundaries {s : Subject} {pos count i : Nat} :
    i ∈ s.boundaries pos count ↔ (pos ≤ i ∧ i < pos + count) ∧ s.isBoundary i = true := by
  rw [boundaries, List.mem_filter, List.mem_range'_1]

theorem Subject.boundaries_succ_of_isBoundary {s : Subject} {pos : Nat} (count : Nat)
    (h : s.isBoundary pos = true) :
    s.boundaries pos (count + 1) = pos :: s.boundaries (pos + 1) count := by
  rw [boundaries, List.range'_succ, List.filter_cons_of_pos h, boundaries]

theorem Subject.boundaries_succ_of_not_isBoundary {s : Subject} {pos : Nat} (count : Nat)
    (h : ¬s.isBoundary pos = true) :
    s.boundaries pos (count + 1) = s.boundaries (pos + 1) count := by
  rw [boundaries, List.range'_succ, List.filter_cons_of_neg h, boundaries]

theorem Subject.pairwise_boundaries (s : Subject) (pos count : Nat) :
    (s.boundaries pos count).Pairwise (· < ·) :=
  (List.pairwise_lt_range' 1).filter _

namespace Matcher

/-- Search at one position after the other up to the first success, with one budget of fuel for all
of them. The violation of an anchor is a failure like any other. -/
def searchAll (m : Matcher) (limits : SearchLimits) :
    (positions : List Nat) → (fuel : Nat) → Except SearchError (Option Outcome)
  | [], _ => .ok none
  | pos :: later, fuel =>
    let ended := m.search limits fuel pos
    match ended.result with
    | .ok (some o) => .ok (some o)
    | .ok none | .error .anchorViolation => m.searchAll limits later ended.fuel
    | .error (.error e) => .error e

/-- Search at all boundaries of characters from `start` on. -/
def searchFrom (m : Matcher) (limits : SearchLimits) (start : Nat) :
    Except SearchError (Option Outcome) :=
  m.searchAll limits (m.subject.boundaries start (m.subject.size + 1 - start)) limits.fuel

def cutShort : Except SearchError (Option Outcome) → Bool
  | .error (.fuelExhausted _) | .error (.recursionLimit _) => true
  | _ => false

def report (m : Matcher) (capture : Nat) (found : Option Outcome) : Option Captures :=
  found.map fun o => .ofSlots o.slots (m.captureLimit capture)

variable {m : Matcher} {limits : SearchLimits} {fuel pos : Nat} {p : Pattern} {target : Target}

theorem exists_of_anchored (hm : m.program = .ofPattern target p)
    (h : m.program.flags.anchored = true) : m.program.flags.newlineSensitive = false ∧
      ∃ times, m.program.insts[0]? = some ⟨.assert .lineStart, times⟩ := by
  rw [hm] at h ⊢
  simp only [Program.ofPattern, Bool.and_eq_true, Bool.not_eq_true', Option.any_eq_true,
    beq_iff_eq] at h
  obtain ⟨hnewline, ⟨atom, times⟩, hi, rfl⟩ := h
  exact ⟨hnewline, times, hi⟩

theorem search_succ_of_anchored (hm : m.program = .ofPattern target p)
    (h : m.program.flags.anchored = true) (hpos : pos ≠ 0) :
    (m.search limits (fuel + 1) pos).result = .error .anchorViolation := by
  obtain ⟨hnewline, times, hi⟩ := exists_of_anchored hm h
  have hstart : m.holds .lineStart pos = false := by
    simp [holds, atLineStart, hpos, hnewline]
  have hstep : m.step (.ready (m.startThread pos)) = .abort .anchorViolation := by
    simp [step, startThread, hi, exec, hstart, h]
  rw [search, run, hstep]

theorem search_of_anchored (hm : m.program = .ofPattern target p)
    (h : m.program.flags.anchored = true) (hpos : pos ≠ 0) :
    (m.search limits fuel pos).result = .error .anchorViolation ∨
      (m.search limits fuel pos).result = .error (.error (.fuelExhausted limits.fuel)) := by
  cases fuel with
  | zero => exact Or.inr rfl
  | succ fuel => exact Or.inl (search_succ_of_anchored hm h hpos)

theorem searchAll_of_anchored (hm : m.program = .ofPattern target p)
    (h : m.program.flags.anchored = true) {positions : List Nat} (hpos : ∀ i ∈ positions, i ≠ 0)
    (hlimit : cutShort (m.searchAll limits positions fuel) = false) :
    m.searchAll limits positions fuel = .ok none := by
  induction positions generalizing fuel with
  | nil => rfl
  | cons pos later ih =>
    have hfirst : (m.search limits fuel pos).result = .error .anchorViolation ∨
        (m.search limits fuel pos).result = .error (.error (.fuelExhausted limits.fuel)) :=
      search_of_anchored hm h (hpos pos List.mem_cons_self)
    unfold searchAll at hlimit ⊢
    obtain hresult | hresult := hfirst
    · simp only [hresult] at hlimit ⊢
      exact ih (fun i hi => hpos i (List.mem_cons_of_mem pos hi)) hlimit
    · simp only [hresult] at hlimit
      cases hlimit

theorem search_ne_some_of_not_admits (hm : m.program = .ofPattern target p)
    (hpos : m.subject.isBoundary pos = true) (h : m.admits pos = false) (o : Outcome) :
    (m.search limits fuel pos).result ≠ .ok (some o) := by
  intro ho
  obtain ⟨s, hwalk, -⟩ := search_some hm ho
  have hadmits := admits_of_walk hm hwalk hpos
  exact absurd (hadmits.symm.trans h) (by decide)

theorem search_add {result : Except Abort (Option Outcome)} (extra : Nat)
    (h : (m.search limits fuel pos).result = result)
    (hfuel : ∀ n, result ≠ .error (.error (.fuelExhausted n))) :
    m.search limits (fuel + extra) pos = ⟨result, (m.search limits fuel pos).fuel + extra⟩ := by
  subst h
  exact run_add rfl extra hfuel

/-- A scan leaves out one position. What it saves by that is added to its fuel. -/
theorem exists_scan_of_not_admits {capture count : Nat} (extra : Nat) (ha : ¬m.admits pos = true) :
    ∃ saved, m.scan limits capture (count + 1) pos (fuel + extra) =
      m.scan limits capture count (pos + 1) ((m.search limits fuel pos).fuel + saved) := by
  obtain ⟨used, hused⟩ : ∃ used, fuel = (m.search limits fuel pos).fuel + used :=
    Nat.exists_eq_add_of_le fuel_run_le
  refine ⟨used + extra, ?_⟩
  rw [← Nat.add_assoc, ← hused, scan, if_neg ha]

/-- A scan goes on after a search that finds nothing, or leaves it out. -/
theorem exists_scan_of_none {capture count : Nat} (extra : Nat)
    (hresult : (m.search limits fuel pos).result = .ok none) :
    ∃ saved, m.scan limits capture (count + 1) pos (fuel + extra) =
      m.scan limits capture count (pos + 1) ((m.search limits fuel pos).fuel + saved) := by
  by_cases ha : m.admits pos = true
  · refine ⟨extra, ?_⟩
    rw [scan, if_pos ha, search_add extra hresult (by simp)]
  · exact exists_scan_of_not_admits extra ha

theorem scan_eq_of_searchAll (hm : m.program = .ofPattern target p) (hp : m.program.Connected)
    {capture count : Nat} (extra : Nat)
    (hlimit : cutShort (m.searchAll limits (m.subject.boundaries pos count) fuel) = false) :
    ∃ found, m.searchAll limits (m.subject.boundaries pos count) fuel = .ok found ∧
      m.scan limits capture count pos (fuel + extra) = .ok (m.report capture found) := by
  induction count generalizing pos fuel extra with
  | zero => exact ⟨none, rfl, rfl⟩
  | succ count ih =>
    by_cases hb : m.subject.isBoundary pos = true
    · rw [Subject.boundaries_succ_of_isBoundary count hb] at hlimit ⊢
      have hends := endsWell_search hp limits fuel pos
      unfold searchAll at hlimit ⊢
      cases hresult : (m.search limits fuel pos).result with
      | ok result =>
        simp only [hresult] at hlimit ⊢
        cases result with
        | none =>
          obtain ⟨saved, hscan⟩ := exists_scan_of_none extra hresult
          rw [hscan]
          exact ih saved hlimit
        | some o =>
          have ha : m.admits pos = true := by
            by_contra ha
            exact search_ne_some_of_not_admits hm hb (by simpa using ha) o hresult
          rw [scan, if_pos ha, search_add extra hresult (by simp)]
          exact ⟨some o, rfl, rfl⟩
      | error why =>
        simp only [hresult] at hlimit hends ⊢
        cases why with
        | anchorViolation =>
          -- The scan gives up; the other searches go on and violate the anchor each time.
          have hbehind : ∀ i ∈ m.subject.boundaries (pos + 1) count, i ≠ 0 := by
            intro i hi
            have := (Subject.mem_boundaries.mp hi).1
            omega
          have hnone := searchAll_of_anchored hm hends hbehind hlimit
          by_cases ha : m.admits pos = true
          · rw [scan, if_pos ha, search_add extra hresult (by simp)]
            exact ⟨none, hnone, rfl⟩
          · obtain ⟨saved, hscan⟩ := exists_scan_of_not_admits extra ha
            rw [hscan]
            exact ih saved hlimit
        | error e =>
          cases e with
          | malformed why => exact absurd rfl (hends why)
          | fuelExhausted | recursionLimit => cases hlimit
    · have ha : ¬m.admits pos = true := fun ha => hb (isBoundary_of_admits ha)
      rw [Subject.boundaries_succ_of_not_isBoundary count hb] at hlimit ⊢
      rw [scan, if_neg ha]
      exact ih extra hlimit

/-- The positions that are left out do not change what is reported. -/
theorem execute_eq_of_searchFrom {o : Options} {l : Locale} {compileLimits : CompileLimits}
    {text : List Char} (hc : Program.compile o l compileLimits text = .ok m.program)
    (limits : SearchLimits) (start capture : Nat)
    (hlimit : cutShort (m.searchFrom limits start) = false) :
    ∃ found, m.searchFrom limits start = .ok found ∧
      m.execute limits start capture = .ok (m.report capture found) := by
  obtain ⟨p, -, hm⟩ := Program.exists_ofPattern hc
  exact scan_eq_of_searchAll hm (Program.connected_of_compile hc) 0 hlimit

def accented : Pattern :=
  .group (.leaf (.char 'ä') .once (.bar (.leaf (.char 'b') .once .done))) .once
    (.leaf (.char 'c') .once .done)

def accentedIn (cs : List Char) : Matcher :=
  ⟨.ofPattern ⟨{ dialect := .extended }, .posix, 255⟩ accented, .posix, .ofList cs, {}⟩

/-- A scan from the middle of a character on, which leaves out the place of the second one. -/
theorem execute_eq_of_searchFrom_accented :
    ∃ found, (accentedIn ['ä', 'x', 'b', 'c']).searchFrom {} 1 = .ok found ∧
      (accentedIn ['ä', 'x', 'b', 'c']).execute {} 1 2 =
        .ok ((accentedIn ['ä', 'x', 'b', 'c']).report 2 found) :=
  execute_eq_of_searchFrom (m := accentedIn ['ä', 'x', 'b', 'c'])
    (show Program.compile { dialect := .extended } .posix {} ['(', 'ä', '|', 'b', ')', 'c']
      = .ok (accentedIn ['ä', 'x', 'b', 'c']).program by decide)
    {} 1 2 (by decide +kernel)

end Matcher

end PosixRegex
