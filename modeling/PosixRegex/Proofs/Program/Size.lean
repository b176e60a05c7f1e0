import PosixRegex.Proofs.Pattern.Limits
import PosixRegex.Proofs.Program.Draft

namespace PosixRegex

variable {t : Target} {g : Nat}

theorem Draft.length_last_char (c : Char) (d : Draft) :
    ((d.char t c).last t).length =
      (d.last t).length + if 0 < d.pending.length ∧ d.pending.length < t.run then 0 else 1 := by
  unfold Draft.char Draft.last
  by_cases hlt : d.pending.length < t.run
  · rw [if_pos hlt]
    cases hpending : d.pending with
    | nil => simp [Target.flush]
    | cons x xs =>
      rw [hpending, List.length_cons] at hlt
      simp [Target.flush, hlt]
  · simp [hlt, Target.flush, Nat.add_assoc]

theorem Draft.length_pending_char (c : Char) (d : Draft) : (d.char t c).pending.length =
    if d.pending.length < t.run then d.pending.length + 1 else 1 := by
  unfold Draft.char
  split <;> rfl

theorem Draft.length_split (d : Draft) :
    (d.split t).length = (d.last t).length + if 1 < d.pending.length then 1 else 0 := by
  unfold Draft.split Draft.last
  rcases d.pending with _ | ⟨c, _ | ⟨c', cs⟩⟩ <;> simp [Target.flush]

namespace Reader

variable {d : Dialect} {limits : CompileLimits} {r r' : Reader}

structure Counted (t : Target) (r : Reader) : Prop where
  size : r.size = (r.written t).length
  run : r.run = (r.scope.draft t).pending.length
  barred : ∀ s ∈ r.scope :: r.outer, s.barred = true ↔ (s.draft t).complete ≠ []

theorem counted_start : start.Counted t where
  size := rfl
  run := rfl
  barred := by simp [start, Scope.empty, Scope.draft, Pattern.draft]

theorem length_written (t : Target) (r : Reader) : (r.written t).length =
    (below t r.scope.group r.outer).length + ((lead r.scope.group (r.scope.draft t).complete).length +
      ((r.scope.draft t).last t).length) := by
  rw [written, Scope.code, Draft.code, List.length_append, List.length_append]

namespace Counted

theorem push (h : r.Counted t) {item : Pattern → Pattern} {size run : Nat}
    (hcomplete : ((item r.scope.items).draft t (r.scope.group + 1)).complete =
      (r.scope.draft t).complete)
    (hrun : run = ((item r.scope.items).draft t (r.scope.group + 1)).pending.length)
    (hlast : (((item r.scope.items).draft t (r.scope.group + 1)).last t).length =
      ((r.scope.draft t).last t).length + size) : (r.push item size run).Counted t where
  size := by
    have hsize := h.size
    rw [length_written] at hsize ⊢
    simp only [Reader.push, Scope.draft] at hcomplete hlast hsize ⊢
    rw [hcomplete, hlast]
    omega
  run := hrun
  barred := by
    obtain ⟨hs, houter⟩ := List.forall_mem_cons.mp h.barred
    refine List.forall_mem_cons.mpr ⟨?_, houter⟩
    simp only [Reader.push, Scope.draft] at hcomplete hs ⊢
    rw [hcomplete]
    exact hs

theorem push_write (h : r.Counted t) {item : Pattern → Pattern} {i : Inst}
    (hitem : (item r.scope.items).draft t (r.scope.group + 1) = (r.scope.draft t).write t [i]) :
    (r.push item 1 0).Counted t :=
  h.push (by rw [hitem]; rfl) (by rw [hitem]; rfl) (by simp [hitem])

theorem char (h : r.Counted t) (ht : t.run = limits.run) {c : Char}
    (hr : r.char d limits c = .ok r') : r'.Counted t := by
  unfold Reader.char at hr
  obtain ⟨-, -, hr⟩ := exists_of_bind_eq_ok hr
  have hlast := (r.scope.draft t).length_last_char (t := t) c
  have hpending := (r.scope.draft t).length_pending_char (t := t) c
  rw [ht, ← h.run] at hlast hpending
  by_cases hextends : 0 < r.run ∧ r.run < limits.run
  · rw [if_pos hextends] at hr hlast
    rw [if_pos hextends.2] at hpending
    cases hr
    exact h.push (Draft.complete_char c _) hpending.symm hlast
  · rw [if_neg hextends] at hr hlast
    cases hr
    refine h.push (Draft.complete_char c _) (Eq.trans ?_ hpending.symm) hlast
    split <;> omega

theorem leaf (h : r.Counted t) (what : Leaf) (hwhat : ∀ c, what ≠ .char c)
    (hr : r.leaf d what = .ok r') : r'.Counted t := by
  obtain rfl := eq_push_of_leaf hr
  exact h.push_write (Pattern.draft_leaf what (Or.inl hwhat) _)

theorem assert (h : r.Counted t) (what : Assertion) : (r.assert what).Counted t :=
  h.push_write rfl

theorem dollar (h : r.Counted t) : r.dollar.Counted t :=
  have ⟨hs, houter⟩ := List.forall_mem_cons.mp (h.assert .lineEnd).barred
  ⟨(h.assert .lineEnd).size, (h.assert .lineEnd).run, List.forall_mem_cons.mpr ⟨hs, houter⟩⟩

theorem quantify (h : r.Counted t) {times : Repetition} (htimes : times ≠ .once)
    (hr : r.quantify d times = .ok r') : r'.Counted t := by
  obtain ⟨-, hq, rfl⟩ | ⟨old, -, hq, hold, rfl⟩ := cases_of_quantify hr
  · obtain ⟨hcomplete, hpending, hlast⟩ := Pattern.requantified_setTimes (t := t) hq htimes
    refine h.push hcomplete (by rw [hpending]; rfl) ?_
    rw [hlast.length_eq, Draft.length_split, h.run]
    rfl
  · obtain ⟨hcomplete, hpending, hlast⟩ := Pattern.requantified_setTimes (t := t) hq
      (Repetition.stack_ne_once hold htimes)
    have hold : (r.scope.draft t).pending = [] :=
      Pattern.pending_draft fun ho => hold (Option.some.inj (hq.symm.trans ho))
    refine h.push hcomplete (by rw [hpending]; rfl) ?_
    rw [hlast.length_eq, Draft.length_split]
    change _ + (if 1 < (r.scope.draft t).pending.length then 1 else 0) = _
    rw [hold]
    rfl

theorem openGroup (h : r.Counted t) {offset : Nat} (hr : r.openGroup d offset = .ok r') :
    r'.Counted t := by
  obtain rfl := eq_of_openGroup hr
  refine ⟨?_, rfl, List.forall_mem_cons.mpr ⟨?_, h.barred⟩⟩
  · have hsize := h.size
    simp [written, below, Scope.code, Scope.draft, Scope.empty, Pattern.draft, Draft.code, lead,
      Draft.last, Target.flush] at hsize ⊢
    omega
  · simp [Scope.empty, Scope.draft, Pattern.draft]

theorem length_body {s : Scope} (hs : s.barred = true ↔ (s.draft t).complete ≠ []) :
    (s.body t).length = (s.code t).length + chainEnd s := by
  by_cases hcomplete : (s.draft t).complete = []
  · have hbarred : s.barred = false := by simpa using mt hs.mp (not_not_intro hcomplete)
    simp [Scope.body_of_complete_eq_nil hcomplete, chainEnd, hbarred]
  · simp [Scope.body_of_complete_ne_nil hcomplete, Scope.code, Draft.code, lead_of_ne_nil hcomplete,
      chainEnd, hs.mpr hcomplete]
    omega

theorem closeGroup (h : r.Counted t) (hholds : r.Holds) (hr : r.closeGroup = .ok r') :
    r'.Counted t := by
  obtain ⟨up, outer, houter, rfl⟩ := exists_of_closeGroup hr
  obtain ⟨hs, hup, hbarred⟩ : _ ∧ _ ∧ _ := by
    simpa only [houter, List.forall_mem_cons] using h.barred
  refine ⟨?_, rfl, List.forall_mem_cons.mpr ⟨hup, hbarred⟩⟩
  have hsize := h.size
  have hbody := length_body hs
  simp only [written, houter, below, Scope.code_group (hholds.group_eq houter),
    List.length_append, List.length_cons, List.length_nil] at hsize ⊢
  omega

theorem bar (h : r.Counted t) : r.bar.Counted t := by
  obtain ⟨hs, houter⟩ := List.forall_mem_cons.mp h.barred
  have hcode : (r.bar.scope.code t) = _ := Draft.code_bar (r.scope.draft t)
  refine ⟨?_, rfl, List.forall_mem_cons.mpr ⟨?_, houter⟩⟩
  · have hsize := h.size
    simp only [written, Reader.bar, List.length_append] at hsize hcode ⊢
    rw [hcode]
    simp only [Scope.code, Draft.code, List.length_append, List.length_cons,
      List.length_nil] at hsize ⊢
    by_cases hcomplete : (r.scope.draft t).complete = []
    · have hbarred : r.scope.barred = false := by simpa using mt hs.mp (not_not_intro hcomplete)
      simp [hcomplete, hbarred, lead, heads] at hsize ⊢
      omega
    · simp [hs.mpr hcomplete, lead_of_ne_nil hcomplete] at hsize ⊢
      omega
  · simp [Reader.bar, Scope.draft, Pattern.draft, Draft.bar]

theorem step (h : r.Counted t) (hholds : r.Holds) (ht : t.run = limits.run) {offset : Nat}
    {token : Token} (htoken : token ≠ .quantifier .once)
    (hr : r.step d limits offset token = .ok r') : r'.Counted t := by
  cases moves_of_step hr with
  | char hr | starChar hr | caretChar hr => exact h.char ht hr
  | any hr => exact h.leaf .any (fun _ => nofun) hr
  | bracket => exact h
  | backRef _ hr => exact h.leaf (.backRef _) (fun _ => nofun) hr
  | word | lineStart => exact h.assert _
  | dollar => exact h.dollar
  | star hr => exact h.quantify Repetition.noConfusion hr
  | quantifier hr => exact h.quantify (fun htimes => htoken (congrArg Token.quantifier htimes)) hr
  | openGroup hr => exact h.openGroup hr
  | closeGroup hr => exact h.closeGroup hholds hr
  | bar => exact h.bar

theorem readToken (h : r.Counted t) (hholds : r.Holds) (ht : t.run = limits.run) {x : Char}
    {offset : Nat} {c after : Cursor} (hr : r.readToken d limits x offset c = .ok (r', after)) :
    r'.Counted t := by
  unfold Reader.readToken at hr
  obtain ⟨⟨token, mid⟩, htoken, hr⟩ := exists_of_bind_eq_ok hr
  obtain ⟨r₁, hstep, hr⟩ := exists_of_bind_eq_ok hr
  have h₁ := h.step hholds ht (Token.ne_once_of_read (ok_of_mapError htoken))
    (ok_of_mapError hstep)
  split at hr
  · obtain ⟨⟨b, last⟩, -, hr⟩ := exists_of_bind_eq_ok hr
    cases hr
    exact h₁.push_write (Pattern.draft_leaf (.bracket b) (Or.inl fun _ => nofun) _)
  · cases hr
    exact h₁

/-- The program of what has been read has the counted instructions, the mark behind its last
alternative and the instruction that accepts. -/
theorem length_code (h : r.Counted t) (hholds : r.Holds) (houter : r.outer = []) :
    (r.scope.items.reverse.code t).length = r.size + chainEnd r.scope + 1 := by
  have hgroup : r.scope.group = 0 := by
    have hnested := hholds.nested.2.2
    rw [houter] at hnested
    exact hnested
  have hbody : link 0 (r.scope.items.reverse.branches t 1 []) = r.scope.body t := by
    rw [Scope.body, hgroup]
  have hsize := h.size
  rw [written, houter] at hsize
  rw [Pattern.code, hbody, List.length_append, length_body (h.barred _ List.mem_cons_self), hsize]
  rfl

end Counted

theorem size_of_finish {p : Pattern} {offset : Nat} (h : r.Counted t) (hholds : r.Holds)
    (hfinish : r.finish limits offset = .ok p) :
    (r.size ≤ (p.code t).length ∧ (p.code t).length ≤ limits.instructions) ∧
      ∀ n, (p.code t).length ≤ n → r.finish { limits with instructions := n } offset = .ok p := by
  unfold finish at hfinish ⊢
  split at hfinish
  · cases hfinish
  · rename_i houter
    have hlength := h.length_code hholds houter
    split at hfinish
    · cases hfinish
    · obtain rfl := Except.ok.inj hfinish
      refine ⟨⟨by omega, by omega⟩, fun n hn => ?_⟩
      rw [hlength] at hn
      exact if_neg (Nat.not_lt.mpr hn)

/-- What is read has been within the limit all the time, and is read under every limit that it is
within. -/
theorem size_of_readAll {p : Pattern} {steps : Nat} {c : Cursor} (h : r.Counted t)
    (hholds : r.Holds) (ht : t.run = limits.run)
    (hread : readAll d limits steps r c = .ok p) :
    (r.size ≤ (p.code t).length ∧ (p.code t).length ≤ limits.instructions) ∧
      ∀ n, (p.code t).length ≤ n →
        readAll d { limits with instructions := n } steps r c = .ok p := by
  induction steps generalizing r c with
  | zero => exact size_of_finish h hholds hread
  | succ steps ih =>
    unfold readAll at hread ⊢
    cases hx : c.next? with
    | none =>
      rw [hx] at hread
      exact size_of_finish h hholds hread
    | some found =>
      obtain ⟨x, mid⟩ := found
      rw [hx] at hread
      obtain ⟨⟨r₁, after⟩, hr, hread⟩ := exists_of_bind_eq_ok hread
      simp only at hread
      split at hread
      · cases hread
      · obtain ⟨⟨hle, hlimit⟩, hall⟩ := ih (h.readToken hholds ht hr) (hholds.readToken hr) hread
        have hgrows := (bounds_of_readToken hr).1.1
        refine ⟨⟨Nat.le_trans hgrows hle, hlimit⟩, fun n hn => ?_⟩
        -- A token is read without regard to the number of instructions.
        have hr' : r.readToken d { limits with instructions := n } x c.offset mid =
            .ok (r₁, after) := hr
        simp only [hr', bind, Except.bind]
        rw [if_neg (Nat.not_lt.mpr (Nat.le_trans hle hn))]
        exact hall n hn

end Reader

theorem Program.size_insts_ofPattern (t : Target) (p : Pattern) :
    (ofPattern t p).insts.size = (p.code t).length := by
  simp [ofPattern]

/-- A pattern that is accepted by itself is accepted with the same program exactly under the limits
that admit the instructions of the program. One that is rejected by itself is rejected under every
limit, for the same reason or because it is too large. By itself a pattern is compiled under a limit
that it cannot reach, and under all of those alike. -/
theorem Program.compile_exact_limit (o : Options) (l : Locale) (run : Nat) (text : List Char) :
    ∃ unlimited : Except PatternError Program,
      (∀ n, 3 * text.length + 2 ≤ n → compile o l ⟨n, run⟩ text = unlimited) ∧
      ∀ n,
        (∀ p, unlimited = .ok p →
          (p.insts.size ≤ n → compile o l ⟨n, run⟩ text = .ok p) ∧
          (n < p.insts.size → Outgrown (compile o l ⟨n, run⟩ text))) ∧
        ∀ e, unlimited = .error e →
          compile o l ⟨n, run⟩ text = .error e ∨ Outgrown (compile o l ⟨n, run⟩ text) := by
  let enough := 3 * text.length + 2
  have hread : ∀ n, Pattern.read o.dialect ⟨n, run⟩ text =
      Pattern.read o.dialect ⟨enough, run⟩ text ∨
        n < enough ∧ Outgrown (Pattern.read o.dialect ⟨n, run⟩ text) := by
    intro n
    obtain heq | houtgrown | ⟨hlt, -⟩ :=
      Pattern.read_limits o.dialect ⟨n, run⟩ ⟨enough, run⟩ text
    · exact Or.inl heq
    · exact Or.inr houtgrown
    · exact absurd hlt (Nat.lt_irrefl enough)
  have houtgrown : ∀ {n}, Outgrown (Pattern.read o.dialect ⟨n, run⟩ text) →
      Outgrown (compile o l ⟨n, run⟩ text) := by
    rintro n ⟨offset, herror⟩
    exact ⟨offset, compile_eq_error_iff.mpr herror⟩
  refine ⟨compile o l ⟨enough, run⟩ text, fun n hn => ?_, fun n => ⟨fun prog hprog => ?_, ?_⟩⟩
  · have heq := (hread n).resolve_right fun ⟨hlt, _⟩ => Nat.not_lt.mpr hn hlt
    simp only [compile, heq]
  · obtain ⟨p, hp, rfl⟩ := exists_ofPattern hprog
    have hsize : ∀ {n}, Pattern.read o.dialect ⟨n, run⟩ text = .ok p →
        (p.code ⟨o, l, run⟩).length ≤ n ∧ ∀ n, (p.code ⟨o, l, run⟩).length ≤ n →
          Pattern.read o.dialect ⟨n, run⟩ text = .ok p := by
      intro n hn
      obtain ⟨⟨-, hlimit⟩, hall⟩ :=
        Reader.size_of_readAll (t := ⟨o, l, run⟩) Reader.counted_start Reader.start_holds rfl hn
      exact ⟨hlimit, hall⟩
    rw [size_insts_ofPattern]
    refine ⟨fun hle => compile_of_read ((hsize hp).2 n hle) l, fun hlt => ?_⟩
    obtain heq | ⟨-, h⟩ := hread n
    · exact absurd (hsize (heq.trans hp)).1 (Nat.not_le.mpr hlt)
    · exact houtgrown h
  · intro e he
    obtain heq | ⟨-, h⟩ := hread n
    · exact Or.inl (compile_eq_error_iff.mpr (heq.trans (compile_eq_error_iff.mp he)))
    · exact Or.inr (houtgrown h)

end PosixRegex
