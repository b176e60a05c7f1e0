import PosixRegex.Proofs.Search.Agreement
import PosixRegex.Proofs.Search.Fuel

namespace PosixRegex

namespace Matcher

/-- The search comes to an end, if it has enough fuel. -/
def Halts (m : Matcher) (limits : SearchLimits) (c : Config) (stack : Stack) : Prop :=
  ∃ fuel, ∀ n, (m.run limits fuel c stack).result ≠ .error (.error (.fuelExhausted n))

/-- The search comes to an end after a path has ended. -/
def HaltsAfter (m : Matcher) (limits : SearchLimits) : Unwound → Prop
  | .finished _ => True
  | .resume t stack => m.Halts limits (.ready t) stack
  | .abort why => ∀ n, why ≠ .error (.fuelExhausted n)

/-- The search comes to an end after a step. -/
def HaltsBy (m : Matcher) (limits : SearchLimits) (stack : Stack) : Action → Prop
  | .go c => m.Halts limits c stack
  | .choose k c => m.Halts limits c (stack.push k)
  | .stop result => m.HaltsAfter limits (m.unwind stack.items stack.size stack.size_eq result)
  | .abort why => ∀ n, why ≠ .error (.fuelExhausted n)

/-- The search comes to an end whatever the running path comes to. -/
def Settles (m : Matcher) (limits : SearchLimits) (stack : Stack) : Prop :=
  ∀ result, m.HaltsBy limits stack (.stop result)

/-- The search comes to an end from a place on, whatever is pending. -/
def HaltsFrom (m : Matcher) (limits : SearchLimits) (pc : Nat) (s : Place) : Prop :=
  ∀ ⦃stack⦄, m.Settles limits stack → m.Halts limits (.ready (s.thread pc)) stack

variable {m : Matcher} {limits : SearchLimits} {stack : Stack} {c : Config} {s : Place}

theorem halts_of_step (h : m.HaltsBy limits stack (m.step c)) : m.Halts limits c stack := by
  have hrun {fuel : Nat} {result : Except Abort (Option Outcome)}
      (hresult : (m.run limits (fuel + 1) c stack).result = result)
      (hr : ∀ n, result ≠ .error (.error (.fuelExhausted n))) : m.Halts limits c stack :=
    ⟨fuel + 1, fun n => hresult ▸ hr n⟩
  unfold run at hrun
  generalize m.step c = action at h hrun
  cases action with
  | go c =>
    obtain ⟨fuel, hfuel⟩ := h
    exact hrun rfl hfuel
  | choose k c =>
    obtain ⟨fuel, hfuel⟩ := h
    by_cases hfull : limits.recursion ≤ stack.size
    · simp only [if_pos hfull] at hrun
      exact @hrun 0 _ rfl (by simp)
    · simp only [if_neg hfull] at hrun
      exact hrun rfl hfuel
  | stop result =>
    simp only [HaltsBy] at h hrun
    generalize m.unwind stack.items stack.size stack.size_eq result = unwound at h hrun
    cases unwound with
    | finished r => exact @hrun 0 _ rfl (by simp)
    | resume t stack =>
      obtain ⟨fuel, hfuel⟩ := h
      exact hrun rfl hfuel
    | abort why => exact @hrun 0 _ rfl (by simpa [HaltsAfter] using h)
  | abort why => exact @hrun 0 _ rfl (by simpa [HaltsBy] using h)

section

variable {t : Thread} {pc resume stop last : Nat} {slots : Slots} {earlier stops : List Nat}

theorem settles_retry (hs : m.Settles limits stack)
    (hstops : ∀ p ∈ stop :: earlier, m.HaltsFrom limits resume ⟨p, slots⟩) :
    m.Settles limits (stack.push (.retry pc resume slots stop earlier last)) := by
  induction earlier generalizing stop last with
  | nil =>
    intro result
    cases result with
    | some o => exact hs (some o)
    | none => exact hstops stop List.mem_cons_self hs
  | cons next others ih =>
    intro result
    cases result with
    | some o => exact hs (some o)
    | none =>
      exact hstops stop List.mem_cons_self
        (ih fun p hp => hstops p (List.mem_cons_of_mem stop hp))

theorem haltsBy_endRepeat (hs : m.Settles limits stack)
    (hstops : ∀ p ∈ t.pos :: stops, m.HaltsFrom limits (t.pc + 1) ⟨p, t.slots⟩) :
    m.HaltsBy limits stack (endRepeat t stops) := by
  have hnext := hstops t.pos List.mem_cons_self
  cases stops with
  | nil => exact hnext hs
  | cons stop earlier =>
    exact hnext (settles_retry hs fun p hp => hstops p (List.mem_cons_of_mem t.pos hp))

/-- A repetition ends, as each further one consumes something. -/
theorem haltsBy_continueRepeat {what : Consumer} {times : Repetition} {count : Nat}
    (hs : m.Settles limits stack)
    (hstops : ∀ p ∈ stops, m.HaltsFrom limits (t.pc + 1) ⟨p, t.slots⟩)
    (hnext : ∀ next, m.Repeats what times t.slots count t.pos next →
      m.HaltsFrom limits (t.pc + 1) ⟨next, t.slots⟩) :
    m.HaltsBy limits stack (continueRepeat t what times count stops) := by
  induction hn : (times.min - count) + (m.subject.size - t.pos) using Nat.strongRecOn
    generalizing t count stops with
  | ind n ih =>
    subst hn
    have hend : times.min ≤ count → m.HaltsBy limits stack (endRepeat t stops) :=
      fun hmin => haltsBy_endRepeat hs (List.forall_mem_cons.mpr ⟨hnext t.pos (.stop hmin), hstops⟩)
    unfold continueRepeat
    split
    · rename_i hfull
      exact hend hfull.1
    · rename_i hroom
      have hmax : times.min ≤ count → times.belowMax count = true := by simpa using hroom
      refine halts_of_step ?_
      simp only [step, repeatOnce]
      cases hc : m.consume what t.pos t.slots with
      | none =>
        by_cases hmin : count < times.min
        · simp only [if_pos hmin]
          exact hs none
        · simp only [if_neg hmin]
          exact hend (Nat.le_of_not_lt hmin)
      | some mid =>
        have hb := consume_bounds hc
        by_cases hmin : count < times.min
        · simp only [if_pos hmin]
          refine ih _ ?_ (by simp) (fun next hr => hnext next (.need hmin hc hr)) rfl
          simp only
          omega
        · have hle := Nat.le_of_not_lt hmin
          simp only [if_neg hmin]
          split
          · rename_i hpos
            refine ih _ ?_ (List.forall_mem_cons.mpr ⟨hnext t.pos (.stop hle), hstops⟩)
              (fun next hr => hnext next (.more hle (hmax hle) hc hpos hr)) rfl
            simp only
            omega
          · exact hend hle

end

section

variable {a b c n g : Nat} {times : Repetition} {rest body p q : Pattern} {target : Target}

theorem haltsFrom_consume {what : Consumer}
    (hi : m.program.insts[a]? = some ⟨.consume what, times⟩)
    (h : ∀ next, m.Repeats what times s.slots 0 s.pos next →
      m.HaltsFrom limits (a + 1) ⟨next, s.slots⟩) : m.HaltsFrom limits a s := by
  intro stack hs
  refine halts_of_step ?_
  simp only [step, Place.thread, hi, exec]
  split
  · rename_i honce
    obtain rfl : times = .once := by simpa [Repetition.isOnce] using honce
    cases hc : m.consume what s.pos s.slots with
    | none => exact hs none
    | some next => exact h next (repeats_once.mpr hc) hs
  · exact haltsBy_continueRepeat hs (by simp) h

theorem haltsFrom_assert {what : Assertion}
    (hi : m.program.insts[a]? = some (.ofAtom (.assert what)))
    (h : m.holds what s.pos = true → m.HaltsFrom limits (a + 1) s) : m.HaltsFrom limits a s := by
  intro stack hs
  refine halts_of_step ?_
  change m.HaltsBy limits stack (m.step (.ready ⟨a, s.pos, s.slots⟩))
  simp only [step, hi, exec, Inst.ofAtom]
  by_cases hw : m.holds what s.pos = true
  · rw [if_pos hw]
    exact h hw hs
  · rw [if_neg hw]
    split
    · simp [HaltsBy]
    · exact hs none

theorem haltsFrom_enter {slot : Slot} {span : GroupSpan}
    (hi : m.program.insts[a]? = some ⟨.enter g, times⟩) (hslot : s.slots[g]? = some slot)
    (hg : m.program.groups[g]? = some span)
    (hin : m.HaltsFrom limits (a + 1) ⟨s.pos, s.slots.enter g s.pos⟩)
    (hskip : times.min = 0 → m.HaltsFrom limits (span.stop + 1) ⟨s.pos, s.slots.skip g⟩) :
    m.HaltsFrom limits a s := by
  intro stack hs
  have he := Slots.setIfInBounds_eq_modify hslot fun slot => ⟨0, some s.pos, slot.stop⟩
  have hk := Slots.setIfInBounds_eq_modify hslot fun slot => ⟨slot.count, none, none⟩
  refine halts_of_step ?_
  simp only [step, Place.thread, hi, exec, enter, hslot, hg, he, hk]
  split
  · rename_i hmin
    exact hin (settles_retry hs (List.forall_mem_singleton.mpr (hskip hmin)))
  · exact hin hs

theorem haltsFrom_leave {slot : Slot} (hi : m.program.insts[c]? = some ⟨.leave g, times⟩)
    (hslot : s.slots[g]? = some slot) (hg : m.program.groups[g]? = some ⟨a, c⟩)
    (hclose : times = .once → m.HaltsFrom limits (c + 1) ⟨s.pos, s.slots.close g s.pos⟩)
    (hagain : times ≠ .once → slot.start ≠ some s.pos → times.belowMax (slot.count + 1) = true →
      m.HaltsFrom limits (a + 1) ⟨s.pos, s.slots.restart g s.pos⟩)
    (hempty : times ≠ .once → slot.start = some s.pos → slot.count < max times.min 1 →
      m.HaltsFrom limits (c + 1) ⟨s.pos, s.slots.finish g s.pos⟩)
    (henough : times ≠ .once → slot.start ≠ some s.pos →
      times.min ≤ slot.count + 1 ∨ times.belowMax (slot.count + 1) = false →
      m.HaltsFrom limits (c + 1) ⟨s.pos, s.slots.finish g s.pos⟩) :
    m.HaltsFrom limits c s := by
  intro stack hs
  have hc := Slots.setIfInBounds_eq_modify hslot fun slot => { slot with stop := some s.pos }
  have hf := Slots.setIfInBounds_eq_modify hslot
    fun slot => ⟨slot.count + 1, slot.start, some s.pos⟩
  have hr := Slots.setIfInBounds_eq_modify hslot
    fun slot => ⟨slot.count + 1, some s.pos, some s.pos⟩
  refine halts_of_step ?_
  simp only [step, Place.thread, hi, exec, leave, hslot, hg, hc, hf, hr, Repetition.isOnce,
    beq_iff_eq]
  by_cases ho : times = .once
  · rw [if_pos ho]
    exact hclose ho hs
  · rw [if_neg ho]
    by_cases hpos : slot.start = some s.pos
    · by_cases hcount : max times.min 1 ≤ slot.count
      · rw [if_pos ⟨hpos, hcount⟩]
        exact hs none
      · rw [if_neg (fun h => hcount h.2), if_pos (Or.inl hpos)]
        exact hempty ho hpos (Nat.lt_of_not_le hcount) hs
    · rw [if_neg (fun h => hpos h.1)]
      cases hmax : times.belowMax (slot.count + 1) with
      | false =>
        rw [if_pos (Or.inr (by simp))]
        exact henough ho hpos (Or.inr hmax) hs
      | true =>
        rw [if_neg (by simpa using hpos)]
        have hmore := hagain ho hpos hmax
        split
        · rename_i hmin
          refine hmore (settles_retry hs (List.forall_mem_singleton.mpr ?_))
          exact henough ho hpos (Or.inl hmin)
        · exact hmore hs

theorem settles_longest {best : Option Outcome} {pos : Nat} {slots : Slots}
    (hs : m.Settles limits stack)
    (hnext : m.nextBranch a = .ok none ∨ ∃ b, m.nextBranch a = .ok (some b) ∧
      m.HaltsFrom limits (b + 1) ⟨pos, slots⟩ ∧
      ∀ best, m.Settles limits (stack.push (.longest b pos slots best))) :
    m.Settles limits (stack.push (.longest a pos slots best)) := by
  intro result
  simp only [HaltsBy, Stack.push, unwind, settle_longest_eq]
  by_cases hend : result.any (·.stop == m.subject.size) = true
  · simp only [if_pos hend]
    exact hs _
  · simp only [if_neg hend]
    obtain hnone | ⟨b, hb, hhead, hrest⟩ := hnext
    · simp only [hnone]
      exact hs _
    · simp only [hb]
      exact hhead (hrest _)

/-- The instructions from `a` up to `b` bring the search to an end. -/
def Concludes (m : Matcher) (limits : SearchLimits) (t : Target) : Part → Nat → Nat → Prop
  | .seq p n, a, b => ∀ s, s.slots.size = m.program.groups.size →
      (∀ s', m.Walk t (.seq p n) s s' → m.HaltsFrom limits b s') → m.HaltsFrom limits a s
  | .alts p n, a, b => ∀ s, s.slots.size = m.program.groups.size →
      (∀ s', m.Walk t (.alts p n) s s' → m.HaltsFrom limits b s') → m.HaltsFrom limits a s
  | .chain p n, a, b => ∀ s, s.slots.size = m.program.groups.size →
      (∀ s', m.Walk t (.alts p n) s s' → m.HaltsFrom limits b s') →
      m.HaltsFrom limits (a + 1) s ∧ ∀ stack best, m.Settles limits stack →
        m.Settles limits (stack.push (.longest a s.pos s.slots best))
  | .rounds _ _ _ _, _, _ => True

theorem haltsFrom_rounds {count : Nat} {stop : Option Nat}
    (hbody : m.Concludes limits target (.alts body (g + 1)) (a + 1) c)
    (hl : m.program.insts[c]? = some ⟨.leave g, times⟩) (hg : m.program.groups[g]? = some ⟨a, c⟩)
    (hsize : s.slots.size = m.program.groups.size)
    (hslot : s.slots[g]? = some ⟨count, some s.pos, stop⟩)
    (hrest : ∀ s', m.Walk target (.rounds body times g count) s s' →
      m.HaltsFrom limits (c + 1) s') : m.HaltsFrom limits (a + 1) s := by
  induction hn : m.subject.size - s.pos using Nat.strongRecOn generalizing s count stop with
  | ind k ih =>
    subst hn
    refine hbody s hsize fun mid hmid => ?_
    have hmidslot : mid.slots[g]? = some ⟨count, some s.pos, stop⟩ :=
      (hmid.slot_eq (Or.inl (Nat.lt_succ_self g))).trans hslot
    have hmidsize := hmid.size_eq.trans hsize
    have hbounds := hmid.bounds
    refine haltsFrom_leave hl hmidslot hg ?_ ?_ ?_ ?_
    · rintro rfl
      exact hrest _ (.once hmid)
    · intro ho hpos hmax
      have hne : mid.pos ≠ s.pos := fun h => hpos (congrArg some h.symm)
      have hrestart : (mid.slots.restart g mid.pos)[g]? =
          some ⟨count + 1, some mid.pos, some mid.pos⟩ :=
        Slots.getElem?_restart hmidslot _
      refine ih _ ?_ (by simpa using hmidsize) hrestart
        (fun s' hs' => hrest s' (.again ho hmid hne hmax hs')) rfl
      simp only
      omega
    · intro ho hpos hcount
      exact hrest _ (.empty ho hmid (Option.some.inj hpos).symm hcount)
    · intro ho hpos hcount
      exact hrest _ (.enough ho hmid (fun h => hpos (congrArg some h.symm)) hcount)

theorem concludes_group {times : Repetition}
    (hi : m.program.insts[a]? = some ⟨.enter n, times⟩)
    (hbody : m.Concludes limits target (.alts body (n + 1)) (a + 1) c)
    (hl : m.program.insts[c]? = some ⟨.leave n, times⟩) (hg : m.program.groups[n]? = some ⟨a, c⟩)
    (hrest : m.Concludes limits target (.seq rest (n + 1 + body.groupCount)) (c + 1) b) :
    m.Concludes limits target (.seq (.group body times rest) n) a b := by
  intro s hsize hb
  obtain ⟨slot, hslot⟩ := getElem?_slots hsize hg
  have henter := Slots.getElem?_enter hslot s.pos
  have hentered : (s.slots.enter n s.pos).size = m.program.groups.size := by simpa using hsize
  refine haltsFrom_enter hi hslot hg ?_ fun hmin => ?_
  · refine haltsFrom_rounds hbody hl hg hentered henter fun mid hmid => ?_
    exact hrest mid (hmid.size_eq.trans hentered) fun s' hs' => hb s' (.group hmid hs')
  · exact hrest _ (by simpa using hsize) fun s' hs' => hb s' (.skip hmin hs')

theorem haltsFrom_chainEnd (hi : m.program.insts[a]? = some (.ofAtom (.branch 0)))
    (h : m.HaltsFrom limits (a + 1) s) : m.HaltsFrom limits a s := by
  intro stack hs
  refine halts_of_step ?_
  simp only [step, Place.thread, hi, exec, Inst.ofAtom]
  exact h hs

theorem haltsFrom_join {span : GroupSpan} (hi : m.program.insts[a]? = some (.ofAtom (.join g)))
    (hg : m.program.groups[g]? = some span) (h : m.HaltsFrom limits span.stop s) :
    m.HaltsFrom limits a s := by
  intro stack hs
  refine halts_of_step ?_
  simp only [step, Place.thread, hi, exec, Inst.ofAtom, hg]
  exact h hs

theorem concludes_of_laid {part : Part} (h : Laid m.program target part a b) :
    m.Concludes limits target part a b := by
  induction h with
  | done => exact fun s _ hb => hb s .done
  | bar => exact fun s _ hb => hb s .bar
  | run hcs hi _ ih =>
    intro s hsize hb
    refine haltsFrom_consume hi fun next hr => ih _ hsize fun s' hs' => hb s' ?_
    rw [repeats_once, consume_literal m _ hcs] at hr
    exact walk_chars.mpr ⟨next, hr, hs'⟩
  | leaf hi _ ih =>
    intro s hsize hb
    exact haltsFrom_consume hi fun next hr => ih _ hsize fun s' hs' => hb s' (.leaf hr hs')
  | assert hi _ ih =>
    intro s hsize hb
    exact haltsFrom_assert hi fun hw => ih s hsize fun s' hs' => hb s' (.assert hw hs')
  | group hi _ hl hg _ ihbody ihrest => exact concludes_group hi ihbody hl hg ihrest
  | only hp _ ih => exact fun s hsize hb => ih s hsize fun s' hs' => hb s' (.here hs')
  | headed hlaid ih =>
    intro s hsize hb stack hs
    obtain ⟨d, hi⟩ := hlaid.chain_head
    obtain ⟨hfirst, hsettles⟩ := ih s hsize hb
    refine halts_of_step ?_
    simp only [step, Place.thread, hi, exec, Inst.ofAtom]
    exact hfirst (hsettles stack none hs)
  | last hp hi hd _ he ih =>
    intro s hsize hb
    refine ⟨ih s hsize fun s' hs' => haltsFrom_chainEnd he (hb s' (.here hs')), ?_⟩
    exact fun stack best hs => settles_longest hs (Or.inl (nextBranch_last hi (hd ▸ he)))
  | more hp hi hd _ hj hg hstop hlaid ihseq ihchain =>
    intro s hsize hb
    obtain ⟨d, hhead⟩ := hlaid.chain_head
    obtain ⟨hnext, hrest⟩ := ihchain s hsize fun s' hs' => hb s' (.later hp hs')
    refine ⟨ihseq s hsize fun s' hs' => haltsFrom_join hj hg (hstop ▸ hb s' (.here hs')), ?_⟩
    intro stack best hs
    refine settles_longest hs (Or.inr ⟨_, nextBranch_more hi (hd ▸ hhead), hd ▸ hnext, ?_⟩)
    exact fun best => hd ▸ hrest stack best hs

end

theorem halts_search {target : Target} {p : Pattern} (hm : m.program = .ofPattern target p)
    (limits : SearchLimits) (pos : Nat) :
    m.Halts limits (.ready (m.startThread pos)) .empty := by
  obtain ⟨stop, hlaid, haccept, -⟩ := Program.laid_ofPattern target p
  rw [← hm] at hlaid haccept
  have hempty : m.Settles limits .empty := fun _ => trivial
  refine concludes_of_laid hlaid (m.startPlace pos) (size_startSlots m pos) (fun s hw => ?_) hempty
  have hsize := size_slots_of_walk hm hw
  intro stack hs
  refine halts_of_step ?_
  have hslot := Array.getElem?_eq_getElem (show 0 < s.slots.size by omega)
  simp only [step, Place.thread, haccept, exec, Inst.ofAtom, hslot]
  exact hs _

/-- Enough fuel for one search after the other is enough for a scan. -/
theorem exists_fuel_scan {target : Target} {p : Pattern} (hm : m.program = .ofPattern target p)
    (recursion capture count pos : Nat) :
    ∃ needed, ∀ limits : SearchLimits, limits.recursion = recursion → ∀ fuel, needed ≤ fuel →
      ∀ n, m.scan limits capture count pos fuel ≠ .error (.fuelExhausted n) := by
  induction count generalizing pos with
  | zero => exact ⟨0, fun _ _ _ _ _ => by simp [scan]⟩
  | succ count ih =>
    obtain ⟨later, hlater⟩ := ih (pos + 1)
    obtain ⟨first, hfirst⟩ := halts_search hm ⟨0, recursion⟩ pos
    refine ⟨first + later, fun limits hrec fuel hfuel => ?_⟩
    obtain ⟨extra, rfl⟩ := Nat.exists_eq_add_of_le (Nat.le_of_add_right_le hfuel)
    have hsearch : m.search limits (first + extra) pos =
        ⟨(m.search ⟨0, recursion⟩ first pos).result,
          (m.search ⟨0, recursion⟩ first pos).fuel + extra⟩ := run_add hrec extra hfirst
    have hended : ∀ n, (m.search ⟨0, recursion⟩ first pos).result ≠
      .error (.error (.fuelExhausted n)) := hfirst
    unfold scan
    split
    · rw [hsearch]
      cases hresult : (m.search ⟨0, recursion⟩ first pos).result with
      | ok result =>
        cases result with
        | none => exact hlater limits hrec _ (by simp only; omega)
        | some o => simp
      | error why =>
        cases why with
        | anchorViolation => simp
        | error e => simpa [hresult] using hended
    · exact hlater limits hrec _ (by omega)

/-- Every search of a compiled program ends by itself: there is an amount of fuel from which on it
is never exhausted. -/
theorem exists_sufficient_fuel {o : Options} {l : Locale} {compileLimits : CompileLimits}
    {text : List Char} (hc : Program.compile o l compileLimits text = .ok m.program)
    (recursion start capture : Nat) :
    ∃ needed, ∀ fuel, needed ≤ fuel →
      ∀ n, m.execute ⟨fuel, recursion⟩ start capture ≠ .error (.fuelExhausted n) := by
  obtain ⟨p, -, hm⟩ := Program.exists_ofPattern hc
  obtain ⟨needed, hneeded⟩ :=
    exists_fuel_scan hm recursion capture (m.subject.size + 1 - start) start
  exact ⟨needed, fun fuel hfuel => hneeded ⟨fuel, recursion⟩ rfl fuel hfuel⟩

def looping : Pattern :=
  .group (.group (.leaf (.char 'a') .star (.bar (.leaf (.char 'b') .once .done))) .star .done) .star
    (.leaf (.backRef 2) .star .done)

def loopingIn (cs : List Char) : Matcher :=
  ⟨.ofPattern ⟨{ dialect := .extended }, .posix, 255⟩ looping, .posix, .ofList cs, {}⟩

theorem exists_sufficient_fuel_looping :
    ∃ needed, ∀ fuel, needed ≤ fuel → ∀ n,
      (loopingIn ['a', 'b', 'a', 'c']).execute ⟨fuel, 1000⟩ 0 3 ≠ .error (.fuelExhausted n) :=
  exists_sufficient_fuel (m := loopingIn ['a', 'b', 'a', 'c'])
    (show Program.compile { dialect := .extended } .posix {}
        ['(', '(', 'a', '*', '|', 'b', ')', '*', ')', '*', '\\', '2', '*']
      = .ok (loopingIn ['a', 'b', 'a', 'c']).program by decide)
    1000 0 3

end Matcher

end PosixRegex
