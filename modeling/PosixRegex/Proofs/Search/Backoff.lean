import Mathlib.Order.Lattice.Nat
import PosixRegex.Program.Compile
import PosixRegex.Proofs.Repetition
import PosixRegex.Proofs.Search.Consume
import PosixRegex.Search.Run

namespace PosixRegex

namespace Matcher

/-- The place behind `k` steps of a consumer that starts at `pos`. -/
def placeAfter (m : Matcher) (what : Consumer) (slots : Slots) (pos : Nat) : Nat → Option Nat
  | 0 => some pos
  | k + 1 => (m.placeAfter what slots pos k).bind fun here => m.consume what here slots

/-- The step behind the first `k` ones fails. -/
def StepFails (m : Matcher) (what : Consumer) (slots : Slots) (pos k : Nat) : Prop :=
  ∃ here, m.placeAfter what slots pos k = some here ∧ m.consume what here slots = none

def StepAdvances (m : Matcher) (what : Consumer) (slots : Slots) (pos k : Nat) : Prop :=
  ∃ here next, m.placeAfter what slots pos k = some here ∧
    m.consume what here slots = some next ∧ here < next

/-- The bounds admit `k` steps, and every one beyond the lower bound advances. -/
structure Admissible (m : Matcher) (what : Consumer) (times : Repetition) (slots : Slots)
    (pos k : Nat) : Prop where
  min_le : times.min ≤ k
  le_max : ∀ n ∈ times.max?, k ≤ n
  advances : ∀ j, times.min ≤ j → j < k → m.StepAdvances what slots pos j

/-- What an action comes to when the repetition in it has been carried through. -/
inductive ComesTo (m : Matcher) : Action → Action → Prop
  | done {action : Action}
      (h : ∀ t what times count stops, action ≠ .go (.repeating t what times count stops)) :
      ComesTo m action action
  | again {t : Thread} {what : Consumer} {times : Repetition} {count : Nat} {stops : List Nat}
      {action : Action} (h : ComesTo m (m.repeatOnce t what times count stops) action) :
      ComesTo m (.go (.repeating t what times count stops)) action

/-- What is pending when the instruction at `pc` has been passed up to `here`: the places of
`later`, the first one next, and what was pending before. -/
def pendingStops (pc : Nat) (slots : Slots) (stack : Stack) (here : Nat) : List Nat → Stack
  | [] => stack
  | stop :: earlier => stack.push (.retry pc (pc + 1) slots stop earlier here)

/-- Pass the instruction at `pc` up to `last`, with the places of `stops` left for later. -/
def leaveStops (pc : Nat) (slots : Slots) (last : Nat) : List Nat → Action
  | [] => .go (.ready ⟨pc + 1, last, slots⟩)
  | stop :: earlier =>
    .choose (.retry pc (pc + 1) slots stop earlier last) (.ready ⟨pc + 1, last, slots⟩)

def conclude (m : Matcher) (limits : SearchLimits) (fuel : Nat) (stack : Stack)
    (result : Option Outcome) : Ended :=
  match m.unwind stack.items stack.size stack.size_eq result with
  | .finished result => ⟨.ok result, fuel⟩
  | .resume t stack => m.run limits fuel (.ready t) stack
  | .abort why => ⟨.error why, fuel⟩

/-- With enough fuel a run gets to the configuration `c'` with `stack'` pending. -/
def RunsTo (m : Matcher) (limits : SearchLimits) (c : Config) (stack : Stack) (c' : Config)
    (stack' : Stack) : Prop :=
  ∃ spent, ∀ fuel, m.run limits (fuel + spent) c stack = m.run limits fuel c' stack'

/-- With enough fuel everything that starts at `c` ends with `result`, and it is the turn of what
was pending before. -/
def EndsWith (m : Matcher) (limits : SearchLimits) (c : Config) (stack : Stack)
    (result : Option Outcome) : Prop :=
  ∃ spent, ∀ fuel, m.run limits (fuel + spent) c stack = m.conclude limits fuel stack result

/-- What follows the instruction at `pc` has failed from each of the places `tried`, one after the
other, while the places of `later` were left. -/
def FailedFrom (m : Matcher) (limits : SearchLimits) (pc : Nat) (slots : Slots) (stack : Stack) :
    (tried later : List Nat) → Prop
  | [], _ => True
  | here :: tried, later =>
    m.EndsWith limits (.ready ⟨pc + 1, here, slots⟩)
      (pendingStops pc slots stack here (tried ++ later)) none ∧
    m.FailedFrom limits pc slots stack tried later

variable {m : Matcher} {limits : SearchLimits} {fuel pc pos here count k : Nat} {slots : Slots}
  {what : Consumer} {times : Repetition} {t : Thread} {stops : List Nat} {c c' c'' : Config}
  {stack stack' stack'' : Stack} {action action' : Action} {result : Option Outcome}

section Places

theorem placeAfter_succ (h : m.placeAfter what slots pos k = some here) :
    m.placeAfter what slots pos (k + 1) = m.consume what here slots := by
  rw [placeAfter, h, Option.bind_some]

theorem placeAfter_eq_none_iff :
    m.placeAfter what slots pos k = none ↔ ∃ j < k, m.StepFails what slots pos j := by
  induction k with
  | zero => simp [placeAfter]
  | succ k ih =>
    cases hk : m.placeAfter what slots pos k with
    | none =>
      obtain ⟨j, hj, hfails⟩ := ih.mp hk
      rw [placeAfter, hk]
      exact iff_of_true rfl ⟨j, Nat.lt_succ_of_lt hj, hfails⟩
    | some here =>
      rw [placeAfter_succ hk]
      constructor
      · intro hnone
        exact ⟨k, Nat.lt_succ_self k, here, hk, hnone⟩
      · rintro ⟨j, hj, hfails⟩
        obtain rfl | hlt := Nat.eq_or_lt_of_le (Nat.le_of_lt_succ hj)
        · obtain ⟨here', hhere, hnone⟩ := hfails
          cases hk.symm.trans hhere
          exact hnone
        · rw [ih.mpr ⟨j, hlt, hfails⟩] at hk
          cases hk

theorem Admissible.lower (h : m.Admissible what times slots pos (k + 1)) (hk : times.min ≤ k) :
    m.Admissible what times slots pos k :=
  ⟨hk, fun n hn => Nat.le_of_succ_le (h.le_max n hn),
    fun j hj hlt => h.advances j hj (Nat.lt_succ_of_lt hlt)⟩

theorem Admissible.succ (h : m.Admissible what times slots pos k)
    (hroom : times.belowMax k = true) (hstep : m.StepAdvances what slots pos k) :
    m.Admissible what times slots pos (k + 1) := by
  refine ⟨Nat.le_succ_of_le h.min_le, Repetition.belowMax_iff.mp hroom, fun j hj hlt => ?_⟩
  obtain rfl | hlt := Nat.eq_or_lt_of_le (Nat.le_of_lt_succ hlt)
  · exact hstep
  · exact h.advances j hj hlt

theorem Admissible.le_of_placeAfter (h : m.Admissible what times slots pos k) {start : Nat}
    (hstart : m.placeAfter what slots pos times.min = some start) :
    ∃ last, m.placeAfter what slots pos k = some last ∧ start + (k - times.min) ≤ last ∧
      last ≤ max start m.subject.size := by
  obtain ⟨extra, rfl⟩ := Nat.exists_eq_add_of_le h.min_le
  induction extra with
  | zero => exact ⟨start, hstart, by omega, by omega⟩
  | succ extra ih =>
    obtain ⟨mid, hmid, hle, hmax⟩ := ih (h.lower (Nat.le_add_right _ _))
    obtain ⟨here, next, hhere, hnext, hlt⟩ := h.advances (times.min + extra) (by omega) (by omega)
    cases hmid.symm.trans hhere
    have hbounds := consume_bounds hnext
    exact ⟨next, (placeAfter_succ hmid).trans hnext, by omega, by omega⟩

theorem exists_isGreatest (htimes : times.Ordered)
    (hmin : (m.placeAfter what slots pos times.min).isSome = true) :
    ∃ count, IsGreatest {k | m.Admissible what times slots pos k} count := by
  obtain ⟨start, hstart⟩ := Option.isSome_iff_exists.mp hmin
  have hnonempty : {k | m.Admissible what times slots pos k}.Nonempty :=
    ⟨times.min, Nat.le_refl _, htimes, fun j hj hlt => absurd hlt (Nat.not_lt.mpr hj)⟩
  have hbounded : BddAbove {k | m.Admissible what times slots pos k} := by
    refine ⟨times.min + m.subject.size, fun k hk => ?_⟩
    obtain ⟨last, -, hle, hmax⟩ := hk.le_of_placeAfter hstart
    omega
  exact ⟨sSup _, Nat.sSup_mem hnonempty hbounded, fun k hk => le_csSup hbounded hk⟩

end Places

section Repetition

theorem ComesTo.unique {first second : Action} (h : m.ComesTo action first)
    (h' : m.ComesTo action second) : first = second := by
  induction h with
  | done hover =>
    cases h' with
    | done => rfl
    | again => exact absurd rfl (hover _ _ _ _ _)
  | again _ ih =>
    cases h' with
    | done hover => exact absurd rfl (hover _ _ _ _ _)
    | again h' => exact ih h'

theorem comesTo_leaveStops (pc : Nat) (slots : Slots) (last : Nat) (stops : List Nat) :
    m.ComesTo (leaveStops pc slots last stops) (leaveStops pc slots last stops) := by
  cases stops <;> exact .done nofun

theorem comesTo_of_needed {missing : Nat} (hmin : times.min = count + missing)
    (hhere : m.placeAfter what slots pos count = some here)
    (hfail : m.placeAfter what slots pos times.min = none → action = .fail)
    (hgo : ∀ start, m.placeAfter what slots pos times.min = some start →
      m.ComesTo (continueRepeat ⟨pc, start, slots⟩ what times times.min []) action) :
    m.ComesTo (continueRepeat ⟨pc, here, slots⟩ what times count []) action := by
  induction missing generalizing count here with
  | zero =>
    obtain rfl : times.min = count := hmin
    exact hgo here hhere
  | succ missing ih =>
    have hlt : count < times.min := by omega
    rw [continueRepeat, if_neg fun h => absurd h.1 (Nat.not_le.mpr hlt)]
    refine .again ?_
    unfold repeatOnce
    cases hnext : m.consume what here slots with
    | none =>
      rw [hfail (placeAfter_eq_none_iff.mpr ⟨count, hlt, here, hhere, hnext⟩)]
      simp only [if_pos hlt]
      exact .done nofun
    | some next =>
      simp only [if_pos hlt]
      exact ih (by omega) ((placeAfter_succ hhere).trans hnext)

/-- Beyond the lower bound as many steps are made as are admissible, and the place before each of
them is left for later. -/
theorem comesTo_longest (pc : Nat) {extra longest : Nat}
    (hgreatest : IsGreatest {k | m.Admissible what times slots pos k} longest)
    (hlongest : longest = count + extra) (hcount : times.min ≤ count)
    (hhere : m.placeAfter what slots pos count = some here)
    (hstops : stops.map some =
      ((List.range' times.min (count - times.min)).map (m.placeAfter what slots pos)).reverse) :
    ∃ last stops', m.placeAfter what slots pos longest = some last ∧
      stops'.map some = ((List.range' times.min (longest - times.min)).map
        (m.placeAfter what slots pos)).reverse ∧
      m.ComesTo (continueRepeat ⟨pc, here, slots⟩ what times count stops)
        (leaveStops pc slots last stops') := by
  have hle : ¬count < times.min := Nat.not_lt.mpr hcount
  induction extra generalizing count here stops with
  | zero =>
    obtain rfl : longest = count := hlongest
    refine ⟨here, stops, hhere, hstops, ?_⟩
    have hover := @comesTo_leaveStops m pc slots here stops
    unfold continueRepeat
    split
    · exact hover
    · rename_i hroom
      refine .again ?_
      unfold repeatOnce
      cases hnext : m.consume what here slots with
      | none =>
        simp only [if_neg hle]
        exact hover
      | some next =>
        simp only [if_neg hle]
        split
        · -- One more step would be admissible.
          rename_i hadvances
          have hmax : times.belowMax longest = true := by simpa [hcount] using hroom
          have hmore := hgreatest.1.succ hmax ⟨here, next, hhere, hnext, hadvances⟩
          exact absurd (hgreatest.2 hmore) (Nat.not_succ_le_self _)
        · exact hover
  | succ extra ih =>
    obtain ⟨here', next, hhere', hnext, hlt⟩ := hgreatest.1.advances count hcount (by omega)
    cases hhere.symm.trans hhere'
    have hmax : times.belowMax count = true := by
      refine Repetition.belowMax_iff.mpr fun n hn => ?_
      have := hgreatest.1.le_max n hn
      omega
    have hstops' : (here :: stops).map some = ((List.range' times.min (count + 1 - times.min)).map
        (m.placeAfter what slots pos)).reverse := by
      have hsub : times.min + (count - times.min) = count := by omega
      rw [Nat.succ_sub hcount, List.range'_1_concat, List.map_append, List.reverse_append, hsub,
        List.map_singleton, hhere, List.reverse_singleton, List.map_cons, hstops]
      rfl
    obtain ⟨last, stops', hlast, hall, hcomes⟩ := ih (by omega) (by omega)
      ((placeAfter_succ hhere).trans hnext) hstops' (by omega)
    refine ⟨last, stops', hlast, hall, ?_⟩
    rw [continueRepeat, if_neg (by simp [hmax])]
    refine .again ?_
    simp only [repeatOnce, hnext, if_neg hle, if_pos hlt]
    exact hcomes

theorem comesTo_step (hi : m.program.insts[pc]? = some ⟨.consume what, times⟩)
    (hfail : m.placeAfter what slots pos times.min = none → action = .fail)
    (hgo : ∀ start, m.placeAfter what slots pos times.min = some start →
      m.ComesTo (continueRepeat ⟨pc, start, slots⟩ what times times.min []) action) :
    m.ComesTo (m.step (.ready ⟨pc, pos, slots⟩)) action := by
  simp only [step, hi, exec]
  by_cases honce : times.isOnce = true
  · -- A single step is made at once.
    obtain rfl : times = .once := beq_iff_eq.mp honce
    rw [if_pos honce]
    cases hnext : m.consume what pos slots with
    | none =>
      rw [hfail (placeAfter_succ (k := 0) rfl ▸ hnext)]
      exact .done nofun
    | some next => exact hgo next (placeAfter_succ (k := 0) rfl ▸ hnext)
  · rw [if_neg honce]
    exact comesTo_of_needed (Nat.zero_add _).symm rfl hfail hgo

theorem exists_comesTo_leaveStops (hi : m.program.insts[pc]? = some ⟨.consume what, times⟩)
    (htimes : times.Ordered) (hmin : m.placeAfter what slots pos times.min ≠ none) :
    ∃ count last stops, IsGreatest {k | m.Admissible what times slots pos k} count ∧
      m.placeAfter what slots pos count = some last ∧
      stops.map some = ((List.range' times.min (count - times.min)).map
        (m.placeAfter what slots pos)).reverse ∧
      m.ComesTo (m.step (.ready ⟨pc, pos, slots⟩)) (leaveStops pc slots last stops) := by
  obtain ⟨start, hstart⟩ := Option.ne_none_iff_exists'.mp hmin
  obtain ⟨count, hcount⟩ := exists_isGreatest htimes (Option.isSome_of_eq_some hstart)
  obtain ⟨extra, hextra⟩ := Nat.exists_eq_add_of_le hcount.1.min_le
  obtain ⟨last, stops, hlast, hstops, hcomes⟩ :=
    comesTo_longest pc hcount hextra (Nat.le_refl _) hstart
      (show ([] : List Nat).map some = _ by simp)
  refine ⟨count, last, stops, hcount, hlast, hstops, comesTo_step hi ?_ fun start' hstart' => ?_⟩
  · intro hnone
    exact absurd hnone hmin
  · cases hstart.symm.trans hstart'
    exact hcomes

theorem comesTo_fail_iff (hi : m.program.insts[pc]? = some ⟨.consume what, times⟩)
    (htimes : times.Ordered) :
    m.ComesTo (m.step (.ready ⟨pc, pos, slots⟩)) .fail ↔
      ∃ k < times.min, m.StepFails what slots pos k := by
  rw [← placeAfter_eq_none_iff]
  constructor
  · intro hfail
    by_contra hmin
    obtain ⟨count, last, stops, -, -, -, hcomes⟩ := exists_comesTo_leaveStops hi htimes hmin
    have heq := hfail.unique hcomes
    cases stops <;> cases heq
  · intro hnone
    refine comesTo_step hi (fun _ => rfl) fun start hstart => ?_
    rw [hnone] at hstart
    cases hstart

end Repetition

section Run

theorem RunsTo.refl (c : Config) (stack : Stack) : m.RunsTo limits c stack c stack :=
  ⟨0, fun _ => rfl⟩

theorem RunsTo.trans (h : m.RunsTo limits c stack c' stack')
    (h' : m.RunsTo limits c' stack' c'' stack'') : m.RunsTo limits c stack c'' stack'' := by
  obtain ⟨spent, hrun⟩ := h
  obtain ⟨spent', hrun'⟩ := h'
  refine ⟨spent' + spent, fun fuel => ?_⟩
  rw [← Nat.add_assoc, hrun, hrun']

theorem RunsTo.endsWith (h : m.RunsTo limits c stack c' stack')
    (h' : ∃ spent, ∀ fuel, m.run limits (fuel + spent) c' stack' =
      m.conclude limits fuel stack result) : m.EndsWith limits c stack result := by
  obtain ⟨spent, hrun⟩ := h
  obtain ⟨spent', hrun'⟩ := h'
  refine ⟨spent' + spent, fun fuel => ?_⟩
  rw [← Nat.add_assoc, hrun, hrun']

def perform (m : Matcher) (limits : SearchLimits) (fuel : Nat) (stack : Stack) : Action → Ended
  | .go c => m.run limits fuel c stack
  | .choose k c =>
    if limits.recursion ≤ stack.size then
      ⟨.error (.error (.recursionLimit limits.recursion)), fuel⟩
    else m.run limits fuel c (stack.push k)
  | .stop result => m.conclude limits fuel stack result
  | .abort why => ⟨.error why, fuel⟩

theorem run_succ (m : Matcher) (limits : SearchLimits) (fuel : Nat) (c : Config) (stack : Stack) :
    m.run limits (fuel + 1) c stack = m.perform limits fuel stack (m.step c) := by
  rw [run]
  cases m.step c <;> rfl

theorem ComesTo.perform (h : m.ComesTo action action') (limits : SearchLimits) (stack : Stack) :
    ∃ spent, ∀ fuel, m.perform limits (fuel + spent) stack action =
      m.perform limits fuel stack action' := by
  induction h with
  | done => exact ⟨0, fun _ => rfl⟩
  | @again t what times count stops action _ ih =>
    obtain ⟨spent, hspent⟩ := ih
    refine ⟨spent + 1, fun fuel => ?_⟩
    rw [← hspent fuel]
    exact m.run_succ limits (fuel + spent) (.repeating t what times count stops) stack

theorem perform_leaveStops {last : Nat} (hroom : stack.size < limits.recursion) :
    m.perform limits fuel stack (leaveStops pc slots last stops) =
      m.run limits fuel (.ready ⟨pc + 1, last, slots⟩) (pendingStops pc slots stack last stops) := by
  cases stops with
  | nil => rfl
  | cons stop earlier =>
    simp only [leaveStops, perform, if_neg (Nat.not_le.mpr hroom)]
    rfl

theorem conclude_pendingStops_some (o : Outcome) :
    m.conclude limits fuel (pendingStops pc slots stack here stops) (some o) =
      m.conclude limits fuel stack (some o) := by
  cases stops <;> rfl

theorem conclude_pendingStops_none (stop : Nat) (earlier : List Nat) :
    m.conclude limits fuel (pendingStops pc slots stack here (stop :: earlier)) none =
      m.run limits fuel (.ready ⟨pc + 1, stop, slots⟩)
        (pendingStops pc slots stack stop earlier) := by
  cases earlier <;> rfl

theorem runsTo_of_failedFrom {tried later : List Nat} {first : Nat} {others : List Nat}
    (hplaces : tried ++ here :: later = first :: others)
    (hfailed : m.FailedFrom limits pc slots stack tried (here :: later)) :
    m.RunsTo limits (.ready ⟨pc + 1, first, slots⟩) (pendingStops pc slots stack first others)
      (.ready ⟨pc + 1, here, slots⟩) (pendingStops pc slots stack here later) := by
  induction tried generalizing first others with
  | nil =>
    cases hplaces
    exact .refl _ _
  | cons place tried ih =>
    rw [List.cons_append] at hplaces
    obtain ⟨rfl, hothers⟩ := List.cons.inj hplaces
    obtain ⟨⟨spent, hspent⟩, hrest⟩ := hfailed
    rw [hothers] at hspent
    cases others with
    | nil => exact absurd hothers (List.append_ne_nil_of_right_ne_nil tried (List.cons_ne_nil _ _))
    | cons second others =>
      have hsecond := ih hothers hrest
      exact .trans ⟨spent, fun fuel => (hspent fuel).trans (conclude_pendingStops_none _ _)⟩ hsecond

theorem endsWith_of_failedFrom {first : Nat} {others : List Nat}
    (hfailed : m.FailedFrom limits pc slots stack (first :: others) []) :
    ∃ spent, ∀ fuel, m.run limits (fuel + spent) (.ready ⟨pc + 1, first, slots⟩)
      (pendingStops pc slots stack first others) = m.conclude limits fuel stack none := by
  induction others generalizing first with
  | nil => exact hfailed.1
  | cons second others ih =>
    obtain ⟨⟨spent, hspent⟩, hrest⟩ := hfailed
    rw [List.append_nil] at hspent
    obtain ⟨spent', hspent'⟩ := ih hrest
    refine ⟨spent' + spent, fun fuel => ?_⟩
    rw [← Nat.add_assoc, hspent, conclude_pendingStops_none, hspent']

end Run

/-- A repeated consumer fails exactly if one of the steps that it needs does. Otherwise it makes the
largest number of steps that the bounds admit and that advance beyond the lower bound. The places
behind fewer steps are left, if there are any, to one checkpoint, and what follows is run from them
in turn, the last one first, until it succeeds. -/
theorem repetition_longest_first (hi : m.program.insts[pc]? = some ⟨.consume what, times⟩)
    (htimes : times.Ordered) (pos : Nat) (slots : Slots) :
    let start := Config.ready ⟨pc, pos, slots⟩
    (m.ComesTo (m.step start) .fail ↔ ∃ k < times.min, m.StepFails what slots pos k) ∧
    ((¬∃ k < times.min, m.StepFails what slots pos k) →
      ∃ count last stops, IsGreatest {k | m.Admissible what times slots pos k} count ∧
        m.placeAfter what slots pos count = some last ∧
        stops.map some = ((List.range' times.min (count - times.min)).map
          (m.placeAfter what slots pos)).reverse ∧
        m.ComesTo (m.step start) (leaveStops pc slots last stops) ∧
        ∀ limits stack, stack.size < limits.recursion →
          (∀ tried here later, tried ++ here :: later = last :: stops →
            m.FailedFrom limits pc slots stack tried (here :: later) →
            let next := Config.ready ⟨pc + 1, here, slots⟩
            let pending := pendingStops pc slots stack here later
            m.RunsTo limits start stack next pending ∧
            ∀ o, m.EndsWith limits next pending (some o) →
              m.EndsWith limits start stack (some o)) ∧
          (m.FailedFrom limits pc slots stack (last :: stops) [] →
            m.EndsWith limits start stack none)) := by
  refine ⟨comesTo_fail_iff hi htimes, fun hmin => ?_⟩
  rw [← placeAfter_eq_none_iff] at hmin
  obtain ⟨count, last, stops, hcount, hlast, hstops, hcomes⟩ :=
    exists_comesTo_leaveStops hi htimes hmin
  refine ⟨count, last, stops, hcount, hlast, hstops, hcomes, fun limits stack hroom => ?_⟩
  have hfirst : m.RunsTo limits (.ready ⟨pc, pos, slots⟩) stack (.ready ⟨pc + 1, last, slots⟩)
      (pendingStops pc slots stack last stops) := by
    obtain ⟨spent, hspent⟩ := hcomes.perform limits stack
    refine ⟨spent + 1, fun fuel => ?_⟩
    rw [← perform_leaveStops hroom, ← hspent]
    exact m.run_succ limits (fuel + spent) _ stack
  constructor
  · intro tried here later hplaces hfailed
    have hruns := hfirst.trans (runsTo_of_failedFrom hplaces hfailed)
    refine ⟨hruns, fun o ho => hruns.endsWith ?_⟩
    obtain ⟨spent, hspent⟩ := ho
    exact ⟨spent, fun fuel => (hspent fuel).trans (conclude_pendingStops_some o)⟩
  · intro hfailed
    exact hfirst.endsWith (endsWith_of_failedFrom hfailed)

def doubling : Pattern :=
  .group (.leaf (.char 'a') .once .done) .once (.leaf (.backRef 1) (.between 1 3) .done)

def doublingIn (cs : List Char) : Matcher :=
  ⟨.ofPattern ⟨{ dialect := .extended }, .posix, 255⟩ doubling, .posix, .ofList cs, {}⟩

/-- Behind the first `a` of `aaaab` the reference is repeated three times, and could have been
repeated twice or once. -/
theorem repetition_longest_first_doubling :
    let m := doublingIn ['a', 'a', 'a', 'a', 'b']
    let slots : Slots := #[⟨0, some 0, none⟩, ⟨0, some 0, some 1⟩]
    (m.program.insts[3]? = some ⟨.consume (.backRef 1), .between 1 3⟩ ∧
      (Repetition.between 1 3).Ordered) ∧
    m.ComesTo (m.step (.ready ⟨3, 1, slots⟩)) (leaveStops 3 slots 4 [3, 2]) := by
  intro m slots
  have hi : m.program.insts[3]? = some ⟨.consume (.backRef 1), .between 1 3⟩ := by decide
  have htimes : (Repetition.between 1 3).Ordered := fun n hn => Option.some.inj hn ▸ by decide
  obtain ⟨-, hlongest⟩ := repetition_longest_first hi htimes 1 slots
  obtain ⟨count, last, stops, hcount, hlast, hstops, hcomes, -⟩ := hlongest (by
    rintro ⟨k, hk, here, hhere, hnone⟩
    obtain rfl : k = 0 := Nat.lt_one_iff.mp hk
    cases hhere
    exact absurd hnone (by decide))
  have hthree : m.Admissible (.backRef 1) (.between 1 3) slots 1 3 := by
    refine ⟨by decide, fun n hn => Nat.le_of_eq (Option.some.inj hn), fun j hj hlt => ?_⟩
    obtain rfl | rfl : j = 1 ∨ j = 2 := by
      have hone : 1 ≤ j := hj
      omega
    · exact ⟨2, 3, by decide, by decide, by decide⟩
    · exact ⟨3, 4, by decide, by decide, by decide⟩
  obtain rfl : count = 3 := Nat.le_antisymm (hcount.1.le_max 3 rfl) (hcount.2 hthree)
  obtain rfl : last = 4 := Option.some.inj (hlast.symm.trans (by decide))
  have hall : stops.map some = [3, 2].map some := hstops.trans (by decide)
  obtain rfl : stops = [3, 2] := List.map_injective_iff.mpr (Option.some_injective _) hall
  exact ⟨⟨hi, htimes⟩, hcomes⟩

end Matcher

end PosixRegex
