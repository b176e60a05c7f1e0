import PosixRegex.Proofs.Program.FirstBytes
import PosixRegex.Proofs.Search.Agreement

namespace PosixRegex

namespace Matcher

variable {m : Matcher} {t : Target} {a b c n : Nat} {p q rest : Pattern} {s s' : Place} {pos : Nat}
  {set : ByteSet}

/-- Whether what starts with the bytes in `set` can start at `pos`. -/
def mayStart (m : Matcher) (set : ByteSet) (pos : Nat) : Bool :=
  if pos = m.subject.size then set.isFull
  else (m.subject.charAt? pos).any (fun c => set.contains (leadByte c))

theorem mayStart_full (h : m.subject.isBoundary pos = true) : m.mayStart .full pos = true := by
  unfold mayStart
  split
  · rfl
  · rename_i hne
    cases hc : m.subject.charAt? pos with
    | none => simp [Subject.isBoundary, hne, hc] at h
    | some x => simp

theorem mayStart_of_charAt? {x : Char} (h : m.subject.charAt? pos = some x)
    (hx : set.contains (leadByte x) = true) : m.mayStart set pos = true := by
  have hne : pos ≠ m.subject.size := by
    rintro rfl
    rw [Subject.charAt?_eq_none_of_size_le _ (Nat.le_refl _)] at h
    cases h
  rw [mayStart, if_neg hne, h]
  exact hx

theorem mayStart_mono {other : ByteSet} (h : m.mayStart set pos = true)
    (hfull : set.isFull = true → other.isFull = true)
    (hcontains : ∀ x, set.contains x = true → other.contains x = true) :
    m.mayStart other pos = true := by
  unfold mayStart at h
  split at h
  · rename_i hsize
    rw [mayStart, if_pos hsize]
    exact hfull h
  · obtain ⟨x, hx, hin⟩ := (Option.any_eq_true _ _).mp h
    exact mayStart_of_charAt? hx (hcontains _ hin)

theorem mayStart_union_left {other : ByteSet} (h : m.mayStart set pos = true) :
    m.mayStart (set.union other) pos = true :=
  mayStart_mono h ByteSet.isFull_union_left fun x hx => by simp [hx]

theorem mayStart_union_right {other : ByteSet} (h : m.mayStart set pos = true) :
    m.mayStart (other.union set) pos = true :=
  mayStart_mono h ByteSet.isFull_union_right fun x hx => by simp [hx]

theorem mayStart_of_accept {f : Char → Bool} {next : Nat}
    (h : m.subject.accept f pos = some next)
    (hf : ∀ x, f x = true → set.contains (leadByte x) = true) : m.mayStart set pos = true := by
  obtain ⟨x, hx, hfx, -⟩ := Subject.accept_eq_some_iff.mp h
  exact mayStart_of_charAt? hx (hf x hfx)

theorem mayStart_of_acceptAll {f : Char → Bool} {fs : List (Char → Bool)} {next : Nat}
    (h : m.subject.acceptAll (f :: fs) pos = some next)
    (hf : ∀ x, f x = true → set.contains (leadByte x) = true) : m.mayStart set pos = true := by
  rw [Subject.acceptAll_cons] at h
  obtain ⟨mid, hmid, -⟩ := Option.bind_eq_some_iff.mp h
  exact mayStart_of_accept hmid hf

theorem contains_ofLeads_of_eq {c x : Char} {cs : List Char} (hc : c ∈ cs) (h : (x == c) = true) :
    (ByteSet.ofLeads cs).contains (leadByte x) = true := by
  obtain rfl : x = c := by simpa using h
  exact ByteSet.contains_ofLeads_of_mem hc

theorem contains_ofLeads_of_pair {c d x : Char} (h : (x == c || x == d) = true) :
    (ByteSet.ofLeads [c, d]).contains (leadByte x) = true := by
  rcases Bool.or_eq_true_iff.mp h with h | h
  · exact contains_ofLeads_of_eq (by simp) h
  · exact contains_ofLeads_of_eq (by simp) h

theorem mayStart_of_consume {what : Consumer} {slots : Slots} {next : Nat}
    (hpos : m.subject.isBoundary pos = true) (h : m.consume what pos slots = some next) :
    m.mayStart what.firstBytes pos = true := by
  cases what with
  | literal c => exact mayStart_of_accept h fun x hx => contains_ofLeads_of_eq (by simp) hx
  | literalFold c d => exact mayStart_of_accept h fun x hx => contains_ofLeads_of_pair hx
  | any | anyButNewline | weighted | backRef | backRefFold => exact mayStart_full hpos
  | text cs =>
    cases cs with
    | nil => exact mayStart_full hpos
    | cons c cs => exact mayStart_of_acceptAll h fun x hx => contains_ofLeads_of_eq (by simp) hx
  | textFold pairs =>
    cases pairs with
    | nil => exact mayStart_full hpos
    | cons pair pairs => exact mayStart_of_acceptAll h fun x hx => contains_ofLeads_of_pair hx
  | narrow set =>
    obtain ⟨bytes, negated⟩ := set
    cases negated with
    | true => exact mayStart_full hpos
    | false =>
      refine mayStart_of_accept h fun x hx => ByteSet.contains_ofLeads_of_mem ?_
      have hlt : x.toNat < 256 := by
        by_contra hge
        rw [Consumer.admits, NarrowSet.contains, if_neg hge] at hx
        cases hx
      exact (NarrowSet.mem_chars_iff hlt).mpr hx

def bytesAt (m : Matcher) (pc : Nat) : ByteSet :=
  Program.bytesAt m.program.insts m.program.groups pc

/-- Where a walk through a part starts the instructions from `a` up to `b` may start, if those
behind them may wherever nothing has been consumed. -/
def Leads (m : Matcher) (t : Target) : Part → Nat → Nat → Prop
  | .seq p n, a, b => ∀ s s', m.Walk t (.seq p n) s s' → m.subject.isBoundary s.pos = true →
      (s'.pos = s.pos → m.mayStart (m.bytesAt b) s.pos = true) →
      m.mayStart (m.bytesAt a) s.pos = true
  | .alts p n, a, b | .chain p n, a, b => ∀ s s', m.Walk t (.alts p n) s s' →
      m.subject.isBoundary s.pos = true →
      (s'.pos = s.pos → m.mayStart (m.bytesAt b) s.pos = true) →
      m.mayStart (m.bytesAt a) s.pos = true
  | .rounds _ _ _ _, _, _ => True

theorem leads_group {body : Pattern} {times : Repetition}
    (hi : m.program.insts[a]? = some ⟨.enter n, times⟩)
    (hbody : m.Leads t (.alts body (n + 1)) (a + 1) c)
    (hl : m.program.insts[c]? = some ⟨.leave n, times⟩)
    (hrest : m.Leads t (.seq rest (n + 1 + body.groupCount)) (c + 1) b) :
    m.Leads t (.seq (.group body times rest) n) a b := by
  intro s s' h hs hb
  by_cases hmin : times.min = 0
  · rw [bytesAt, Program.bytesAt_enter hi, if_pos hmin]
    exact mayStart_full hs
  · rw [bytesAt, Program.bytesAt_enter hi, if_neg hmin]
    cases h with
    | skip hzero => exact absurd hzero hmin
    | @group _ _ _ _ _ mid _ hrounds hwalk =>
      obtain ⟨first, hfirst, -, hstay⟩ := hrounds.first_iteration
      refine hbody ⟨s.pos, s.slots.enter n s.pos⟩ first hfirst hs fun hpos => ?_
      have hmid : mid.pos = s.pos := hstay hpos
      rw [bytesAt, Program.bytesAt_leave hl]
      have hlead := hrest mid s' hwalk (hmid ▸ hs) fun hpos' => hmid ▸ hb (hpos'.trans hmid)
      exact hmid ▸ hlead

theorem leads_leaf {what : Leaf} {times : Repetition}
    (hi : m.program.insts[a]? = some ⟨.consume (t.consumer what), times⟩) :
    m.Leads t (.seq (.leaf what times rest) n) a b := by
  intro s s' h hs _
  rw [bytesAt, Program.bytesAt_consume hi]
  split
  · exact mayStart_full hs
  · rename_i hmin
    cases h with
    | leaf hr _ =>
      cases hr with
      | stop hle => exact absurd (Nat.le_zero.mp hle) hmin
      | need _ hc _ => exact mayStart_of_consume hs hc
      | more hle => exact absurd (Nat.le_zero.mp hle) hmin

theorem leads_run {cs : List Char} (hcs : cs ≠ [])
    (hi : m.program.insts[a]? = some (.ofAtom (.consume (t.literal cs)))) :
    m.Leads t (.seq (.chars cs rest) n) a b := by
  intro s s' h hs _
  rw [bytesAt, Program.bytesAt_consume hi, if_neg (by decide)]
  obtain ⟨next, hnext, -⟩ := walk_chars.mp h
  rw [← consume_literal m t hcs s.pos s.slots] at hnext
  exact mayStart_of_consume hs hnext

theorem leads_of_laid {part : Part} (h : Laid m.program t part a b) : m.Leads t part a b := by
  induction h with
  | done | bar =>
    intro s s' h _ hb
    cases h
    exact hb rfl
  | run hcs hi _ _ => exact leads_run hcs hi
  | leaf hi _ _ => exact leads_leaf hi
  | assert hi _ _ =>
    intro s s' _ hs _
    rw [bytesAt, Program.bytesAt_assert hi]
    exact mayStart_full hs
  | group hi _ hl _ _ ihbody ihrest => exact leads_group hi ihbody hl ihrest
  | only hp _ ih => exact fun s s' h => ih s s' ((walk_alts_iff_of_none hp).mp h)
  | headed _ ih => exact ih
  | last hp hi hd _ he ih =>
    intro s s' h hs hb
    rw [bytesAt, Program.bytesAt_lastBranch hi (hd ▸ he)]
    refine ih s s' ((walk_alts_iff_of_none hp).mp h) hs fun hpos => ?_
    rw [bytesAt, Program.bytesAt_chainEnd he]
    exact hb hpos
  | more hp hi hd _ hj hg hstop hlaid ihseq ihchain =>
    intro s s' h hs hb
    obtain ⟨d', hhead⟩ := hlaid.chain_head
    rw [bytesAt, Program.bytesAt_branch hi (hd ▸ hhead), hd]
    rcases (walk_alts_iff_of_some hp).mp h with h | h
    · refine mayStart_union_left (ihseq s s' h hs fun hpos => ?_)
      have hle := hlaid.le
      rw [bytesAt, Program.bytesAt_join hj hg (by omega), hstop]
      exact hb hpos
    · exact mayStart_union_right (ihchain s s' h hs hb)

theorem admits_of_walk (hm : m.program = .ofPattern t p)
    (h : m.Walk t (.alts p 1) s s') (hs : m.subject.isBoundary s.pos = true) :
    m.admits s.pos = true := by
  obtain ⟨stop, hlaid, haccept, hsize⟩ := Program.laid_ofPattern t p
  rw [← hm] at hlaid haccept hsize
  have hlead := leads_of_laid hlaid s s' h hs fun _ => by
    rw [bytesAt, Program.bytesAt_accept haccept]
    exact mayStart_full hs
  have hfirst : m.program.firstBytes = m.bytesAt 0 := by
    rw [bytesAt, ← Program.computeFirstBytes_eq (by omega), hm]
    rfl
  rw [← hfirst] at hlead
  exact hlead

end Matcher

end PosixRegex
