import PosixRegex.Program.Compile

namespace PosixRegex

namespace ByteSet

theorem contains_ofLeads {cs : List Char} {b : UInt8} :
    (ofLeads cs).contains b = true ↔ ∃ c ∈ cs, leadByte c = b := by
  have hfold : ofLeads cs = (cs.map leadByte).foldl insert empty := by
    rw [ofLeads, List.foldl_map]
  rw [hfold, contains_foldl_insert, contains_empty, Bool.false_or, List.contains_iff_mem,
    List.mem_map]

theorem contains_ofLeads_of_mem {cs : List Char} {c : Char} (h : c ∈ cs) :
    (ofLeads cs).contains (leadByte c) = true :=
  contains_ofLeads.mpr ⟨c, h, rfl⟩

theorem isFull_union_left {s t : ByteSet} (h : s.isFull = true) : (s.union t).isFull = true := by
  obtain rfl : s = full := by simpa [isFull] using h
  rw [isFull, beq_iff_eq]
  exact eq_of_contains fun b => by simp

theorem isFull_union_right {s t : ByteSet} (h : t.isFull = true) : (s.union t).isFull = true := by
  obtain rfl : t = full := by simpa [isFull] using h
  rw [isFull, beq_iff_eq]
  exact eq_of_contains fun b => by simp

end ByteSet

theorem leadByte_eq_iff {c d : Char} (hc : c.toNat < 128) : leadByte d = leadByte c ↔ d = c := by
  constructor
  · intro h
    have hbyte : ∀ n < 256, (UInt8.ofNat n).toNat = n := fun n hn => UInt8.toNat_ofNat_of_lt' hn
    have hd : (leadByte d).toNat = c.toNat := by
      rw [h, leadByte, if_pos hc, hbyte _ (by omega)]
    have hvalid : d.toNat.isValidChar := d.valid
    unfold Nat.isValidChar at hvalid
    unfold leadByte at hd
    simp only at hd
    split at hd
    · rw [hbyte _ (by omega)] at hd
      exact Char.toNat_inj.mp hd
    · -- The first byte of a longer encoding is no ASCII code.
      exfalso
      split at hd
      · rw [hbyte _ (by omega)] at hd
        omega
      · split at hd
        · rw [hbyte _ (by omega)] at hd
          omega
        · rw [hbyte _ (by omega)] at hd
          omega
  · exact congrArg leadByte

theorem NarrowSet.mem_chars_iff {s : NarrowSet} {c : Char} (hc : c.toNat < 256) :
    c ∈ s.bytes.toList.map (fun b => Char.ofNat b.toNat) ↔ s.contains c = true := by
  rw [contains, if_pos hc, List.mem_map]
  constructor
  · rintro ⟨b, hb, rfl⟩
    have hvalid : b.toNat.isValidChar := Or.inl (Nat.lt_trans b.toNat_lt (by decide))
    have htoNat : (Char.ofNat b.toNat).toNat = b.toNat := by
      rw [Char.ofNat, dif_pos hvalid]
      rfl
    rw [htoNat, UInt8.ofNat_toNat]
    exact ByteSet.mem_toList.mp hb
  · intro h
    refine ⟨_, ByteSet.mem_toList.mpr h, ?_⟩
    rw [UInt8.toNat_ofNat_of_lt' hc, Char.ofNat_toNat]

namespace Program

variable {insts : Array Inst} {groups : Array GroupSpan} {pc target count k : Nat} {i : Inst}

theorem firstBytesTable_succ (hi : insts[insts.size - 1 - count]? = some i) :
    firstBytesTable insts groups (count + 1) = (firstBytesTable insts groups count).push
      (firstBytesAt insts groups (firstBytesTable insts groups count)
          (insts.size - 1 - count) i) := by
  rw [firstBytesTable, hi]

theorem size_firstBytesTable (h : count ≤ insts.size) :
    (firstBytesTable insts groups count).size = count := by
  induction count with
  | zero => rfl
  | succ count ih =>
    rw [firstBytesTable_succ (Array.getElem?_eq_getElem (by omega)), Array.size_push,
      ih (by omega)]

theorem getElem?_firstBytesTable (hk : k < count) (hcount : count ≤ insts.size)
    (hi : insts[insts.size - 1 - k]? = some i) :
    (firstBytesTable insts groups count)[k]? =
      some (firstBytesAt insts groups (firstBytesTable insts groups k) (insts.size - 1 - k) i) := by
  induction count with
  | zero => omega
  | succ count ih =>
    have hsize : (firstBytesTable insts groups count).size = count :=
      size_firstBytesTable (Nat.le_of_succ_le hcount)
    by_cases hlast : k = count
    · subst hlast
      rw [firstBytesTable_succ hi, Array.getElem?_push, if_pos hsize.symm]
    · rw [firstBytesTable_succ (Array.getElem?_eq_getElem (by omega)), Array.getElem?_push,
        if_neg (by omega)]
      exact ih (by omega) (by omega)

section

variable {P : ByteSet → Prop} (hfull : P .full) (hunion : ∀ s s', P s → P s' → P (s.union s'))
  (hconsume : ∀ i ∈ insts, ∀ what, i.atom = .consume what → P what.firstBytes)

include hfull hunion hconsume

theorem firstBytesAt_of_later {later : Array ByteSet} (hlater : ∀ s ∈ later, P s)
    (hi : i ∈ insts) : P (firstBytesAt insts groups later pc i) := by
  have hbytes : ∀ target, P (if target < insts.size then
      (later[insts.size - 1 - target]?).getD .full else .full) := by
    intro target
    split
    · cases hs : later[insts.size - 1 - target]? with
      | none => exact hfull
      | some s => exact hlater s (Array.mem_of_getElem? hs)
    · exact hfull
  unfold firstBytesAt
  split
  · exact hbytes _
  · exact hbytes _
  · split
    · exact hbytes _
    · exact hunion _ _ (hbytes _) (hbytes _)
  · split
    · exact hbytes _
    · exact hfull
  · split
    · exact hfull
    · exact hbytes _
  · rename_i what hwhat
    split
    · exact hfull
    · exact hconsume i hi what hwhat
  · exact hfull
  · exact hfull

/-- What all bytes, unions and the first bytes of all items have, the first bytes of a match have. -/
theorem computeFirstBytes_of_insts : P (computeFirstBytes insts groups) := by
  have htable : ∀ count, ∀ s ∈ firstBytesTable insts groups count, P s := by
    intro count
    induction count with
    | zero => exact fun s hs => absurd hs (Array.not_mem_empty s)
    | succ count ih =>
      intro s hs
      unfold firstBytesTable at hs
      split at hs
      · rename_i i hi
        rcases Array.mem_push.mp hs with hs | rfl
        · exact ih s hs
        · exact firstBytesAt_of_later hfull hunion hconsume ih (Array.mem_of_getElem? hi)
      · exact ih s hs
  unfold computeFirstBytes
  cases hs : (firstBytesTable insts groups insts.size).back? with
  | none => exact hfull
  | some s => exact htable _ s (Array.mem_of_back? hs)

end

def bytesAt (insts : Array Inst) (groups : Array GroupSpan) (pc : Nat) : ByteSet :=
  if pc < insts.size then
    ((firstBytesTable insts groups insts.size)[insts.size - 1 - pc]?).getD .full
  else .full

theorem bytesAt_eq (hi : insts[pc]? = some i) : bytesAt insts groups pc =
    firstBytesAt insts groups (firstBytesTable insts groups (insts.size - 1 - pc)) pc i := by
  have hpc := (Array.getElem?_eq_some_iff.mp hi).1
  have hback : insts.size - 1 - (insts.size - 1 - pc) = pc := by omega
  rw [bytesAt, if_pos hpc, getElem?_firstBytesTable (by omega) (Nat.le_refl _) (by rwa [hback]),
    hback]
  rfl

theorem lookup_eq (hpc : pc < target) :
    (if target < insts.size then
      ((firstBytesTable insts groups (insts.size - 1 - pc))[insts.size - 1 - target]?).getD .full
    else .full) = bytesAt insts groups target := by
  rw [bytesAt]
  split
  · have htarget := Array.getElem?_eq_getElem (show insts.size - 1 - (insts.size - 1 - target) <
      insts.size by omega)
    rw [getElem?_firstBytesTable (by omega) (by omega) htarget,
      getElem?_firstBytesTable (by omega) (Nat.le_refl _) htarget]
  · rfl

theorem bytesAt_leave {g : Nat} {times : Repetition} (hi : insts[pc]? = some ⟨.leave g, times⟩) :
    bytesAt insts groups pc = bytesAt insts groups (pc + 1) := by
  rw [bytesAt_eq hi, ← lookup_eq (Nat.lt_succ_self pc)]
  rfl

theorem bytesAt_chainEnd (hi : insts[pc]? = some (.ofAtom (.branch 0))) :
    bytesAt insts groups pc = bytesAt insts groups (pc + 1) := by
  rw [bytesAt_eq hi, ← lookup_eq (Nat.lt_succ_self pc)]
  rfl

theorem bytesAt_lastBranch {d : Nat} (hi : insts[pc]? = some (.ofAtom (.branch (d + 1))))
    (he : insts[pc + (d + 1)]? = some (.ofAtom (.branch 0))) :
    bytesAt insts groups pc = bytesAt insts groups (pc + 1) := by
  rw [bytesAt_eq hi, ← lookup_eq (Nat.lt_succ_self pc)]
  simp only [firstBytesAt, Inst.ofAtom, he]
  rfl

theorem bytesAt_branch {d d' : Nat} (hi : insts[pc]? = some (.ofAtom (.branch (d + 1))))
    (he : insts[pc + (d + 1)]? = some (.ofAtom (.branch (d' + 1)))) :
    bytesAt insts groups pc =
      (bytesAt insts groups (pc + 1)).union (bytesAt insts groups (pc + (d + 1))) := by
  rw [bytesAt_eq hi, ← lookup_eq (Nat.lt_succ_self pc),
    ← lookup_eq (show pc < pc + (d + 1) by omega)]
  simp only [firstBytesAt, Inst.ofAtom, he]
  rfl

theorem bytesAt_join {g : Nat} {span : GroupSpan} (hi : insts[pc]? = some (.ofAtom (.join g)))
    (hg : groups[g]? = some span) (hpc : pc < span.stop) :
    bytesAt insts groups pc = bytesAt insts groups span.stop := by
  rw [bytesAt_eq hi, ← lookup_eq hpc]
  simp only [firstBytesAt, Inst.ofAtom, hg]

theorem bytesAt_enter {g : Nat} {times : Repetition} (hi : insts[pc]? = some ⟨.enter g, times⟩) :
    bytesAt insts groups pc =
      if times.min = 0 then .full else bytesAt insts groups (pc + 1) := by
  rw [bytesAt_eq hi, ← lookup_eq (Nat.lt_succ_self pc)]
  rfl

theorem bytesAt_consume {what : Consumer} {times : Repetition}
    (hi : insts[pc]? = some ⟨.consume what, times⟩) :
    bytesAt insts groups pc = if times.min = 0 then .full else what.firstBytes := by
  rw [bytesAt_eq hi]
  rfl

theorem bytesAt_assert {what : Assertion} (hi : insts[pc]? = some (.ofAtom (.assert what))) :
    bytesAt insts groups pc = .full := by
  rw [bytesAt_eq hi]
  rfl

theorem bytesAt_accept (hi : insts[pc]? = some (.ofAtom .accept)) :
    bytesAt insts groups pc = .full := by
  rw [bytesAt_eq hi]
  rfl

theorem computeFirstBytes_eq (h : 0 < insts.size) :
    computeFirstBytes insts groups = bytesAt insts groups 0 := by
  rw [computeFirstBytes, bytesAt, if_pos h, Array.back?_eq_getElem?,
    size_firstBytesTable (Nat.le_refl _)]
  rfl

end Program

end PosixRegex
