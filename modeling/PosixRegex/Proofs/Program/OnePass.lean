import PosixRegex.Proofs.Pattern.Slices
import PosixRegex.Proofs.Program.Assembly
import PosixRegex.Proofs.Program.FirstBytes
import PosixRegex.Proofs.Program.Size

namespace PosixRegex

namespace Program

variable {insts : Array Inst} {groups : Array GroupSpan} {later : Array ByteSet} {pc : Nat}
  {i : Inst}

/-- The first bytes at instruction `pc`, if what it leads to is in the tables. -/
def firstBytesAt? (insts : Array Inst) (groups : Array GroupSpan) (later : Array ByteSet)
    (pc : Nat) (i : Inst) : Option ByteSet :=
  let bytesOf (target : Nat) : Option ByteSet :=
    if target < insts.size then later[insts.size - 1 - target]? else none
  match i.atom with
  | .leave _ | .branch 0 => bytesOf (pc + 1)
  | .branch next => do
    let head ← insts[pc + next]?
    let here ← bytesOf (pc + 1)
    if head.atom.isChainEnd then return here
    else return here.union (← bytesOf (pc + next))
  | .join g => do bytesOf (← groups[g]?).stop
  | .enter _ => if i.times.min = 0 then some .full else bytesOf (pc + 1)
  | .consume what => some (if i.times.min = 0 then .full else what.firstBytes)
  | .assert _ | .accept => some .full

def firstBytesTable? (insts : Array Inst) (groups : Array GroupSpan) : Nat → Option (Array ByteSet)
  | 0 => some #[]
  | count + 1 => do
    let later ← firstBytesTable? insts groups count
    let i ← insts[insts.size - 1 - count]?
    return later.push (← firstBytesAt? insts groups later (insts.size - 1 - count) i)

def firstBytes? (insts : Array Inst) (groups : Array GroupSpan) : Option ByteSet := do
  (← firstBytesTable? insts groups insts.size).back?

/-- What an instruction leads to lies behind it, up to the last instruction. -/
structure Forward (insts : Array Inst) (groups : Array GroupSpan) : Prop where
  next {pc : Nat} {i : Inst} (hi : insts[pc]? = some i) (h : i.atom ≠ .accept) :
    pc + 1 < insts.size
  branch {pc d : Nat} {times : Repetition} (hi : insts[pc]? = some ⟨.branch (d + 1), times⟩) :
    pc + (d + 1) < insts.size
  join {pc g : Nat} {times : Repetition} (hi : insts[pc]? = some ⟨.join g, times⟩) :
    ∃ span, groups[g]? = some span ∧ pc < span.stop ∧ span.stop < insts.size

theorem forward_ofPattern (t : Target) {p : Pattern} (hp : p.Numbered) :
    Forward (ofPattern t p).insts (ofPattern t p).groups := by
  obtain ⟨stop, hlaid, haccept, hsize⟩ := laid_ofPattern t p
  have hnext : ∀ {pc : Nat} {i : Inst}, (ofPattern t p).insts[pc]? = some i → i.atom ≠ .accept →
      pc < stop := by
    intro pc i hi hne
    have hlt := (Array.getElem?_eq_some_iff.mp hi).1
    rcases Nat.lt_or_ge pc stop with hpc | hpc
    · exact hpc
    · obtain rfl : pc = stop := by omega
      obtain rfl := Option.some.inj (haccept.symm.trans hi)
      exact absurd rfl hne
  refine ⟨fun hi hne => ?_, fun hi => ?_, fun hi => ?_⟩
  · have := hnext hi hne
    omega
  · obtain ⟨-, -, hinsts⟩ := defect?_eq_none_iff.mp (wellFormed_ofPattern (t := t) hp).sound
    obtain ⟨next, times', hhead⟩ := instDefect?_branch_eq_none_iff.mp (hinsts _ _ hi)
    exact (Array.getElem?_eq_some_iff.mp hhead).1
  · obtain ⟨span, d, hspan, hlt, -⟩ := hlaid.join_forward (Nat.zero_le _) (hnext hi nofun) hi
    obtain ⟨i, hstop, -⟩ := closesAt_ofPattern hspan
    exact ⟨span, hspan, hlt, (Array.getElem?_eq_some_iff.mp hstop).1⟩

namespace Forward

theorem firstBytesAt?_eq (h : Forward insts groups) (hi : insts[pc]? = some i)
    (hlater : later.size = insts.size - 1 - pc) : firstBytesAt? insts groups later pc i =
      some (firstBytesAt insts groups later pc i) := by
  have hbytes : ∀ target, pc < target → target < insts.size →
      (if target < insts.size then later[insts.size - 1 - target]? else none) =
        some (if target < insts.size then
          (later[insts.size - 1 - target]?).getD .full else .full) := by
    intro target hpc htarget
    rw [if_pos htarget, if_pos htarget, Array.getElem?_eq_getElem (by omega)]
    rfl
  obtain ⟨atom, times⟩ := i
  unfold firstBytesAt? firstBytesAt
  cases atom with
  | leave g => exact hbytes _ (Nat.lt_succ_self pc) (h.next hi nofun)
  | enter g =>
    dsimp only
    split
    · rfl
    · exact hbytes _ (Nat.lt_succ_self pc) (h.next hi nofun)
  | consume what => rfl
  | assert what => rfl
  | accept => rfl
  | join g =>
    obtain ⟨span, hspan, hlt, hstop⟩ := h.join hi
    simp only [hspan]
    exact hbytes _ hlt hstop
  | branch next =>
    have hhere := hbytes (pc + 1) (Nat.lt_succ_self pc) (h.next hi nofun)
    cases next with
    | zero => exact hhere
    | succ d =>
      have hlt := h.branch hi
      have hthere := hbytes (pc + (d + 1)) (by omega) hlt
      simp only [Array.getElem?_eq_getElem hlt, hhere, hthere, Option.bind_eq_bind,
        Option.bind_some, Option.any_some]
      split <;> rfl

theorem firstBytesTable?_eq (h : Forward insts groups) {count : Nat} (hcount : count ≤ insts.size) :
    firstBytesTable? insts groups count = some (firstBytesTable insts groups count) := by
  induction count with
  | zero => rfl
  | succ count ih =>
    have hi : insts[insts.size - 1 - count]? = some insts[insts.size - 1 - count] :=
      Array.getElem?_eq_getElem (by omega)
    have hsize : (firstBytesTable insts groups count).size =
        insts.size - 1 - (insts.size - 1 - count) := by
      rw [size_firstBytesTable (by omega)]
      omega
    rw [firstBytesTable_succ hi, firstBytesTable?, ih (by omega)]
    simp only [hi, Option.bind_eq_bind, Option.bind_some, h.firstBytesAt?_eq hi hsize]
    rfl

theorem firstBytes?_eq (h : Forward insts groups) (hpos : 0 < insts.size) :
    firstBytes? insts groups = some (computeFirstBytes insts groups) := by
  have hsize : (firstBytesTable insts groups insts.size).size = insts.size :=
    size_firstBytesTable (Nat.le_refl _)
  simp only [firstBytes?, h.firstBytesTable?_eq (Nat.le_refl _), computeFirstBytes,
    Option.bind_eq_bind, Option.bind_some, Array.back?_eq_getElem?]
  rw [Array.getElem?_eq_getElem (by omega)]
  rfl

end Forward

end Program

namespace Assembler

variable (t : Target) (limits : CompileLimits) (text : List Char)

def readToken (r : Reader) (a : Assembler) (x : Char) (offset pos : Nat) :
    Sliced ((Reader × Assembler) × Nat) := do
  let (token, after) ← Sliced.token text t.options.dialect x offset pos
  let r ← .ofExcept ((r.step t.options.dialect limits offset token).mapError (⟨offset, ·⟩))
  let a ← a.step t token
  match token with
  | .bracket =>
    let (b, after) ← Sliced.bracket text offset
    return ((r.push (.leaf (.bracket b) .once) 1 0, a.consume (t.consumer (.bracket b))), after)
  | _ => return ((r, a), after)

def program (r : Reader) (a : Assembler) : Sliced Program := do
  match r.outer with
  | _ :: _ => throw ⟨r.scope.opened, .unmatchedParen⟩
  | [] =>
    let (insts, groups) ← a.finish
    if limits.instructions < insts.length then throw ⟨byteLength text, .patternTooLarge⟩
    else
      let insts := insts.toArray
      let groups := groups.toArray
      let firstBytes ← Program.firstBytes? insts groups
      return {
        insts
        groups
        firstBytes
        flags :=
          { ignoreCase := t.options.ignoreCase
            newlineSensitive := t.options.newlineSensitive
            noCapture := t.options.noCapture
            anchored := !t.options.newlineSensitive &&
              insts[0]?.any (·.atom == .assert .lineStart) } }

def readAll : Nat → Reader → Assembler → Nat → Sliced Program
  | 0, r, a, _ => program t limits text r a
  | steps + 1, r, a, pos => do
    match ← Sliced.next text pos with
    | none => program t limits text r a
    | some (x, after) =>
      let ((r, a), after) ← readToken t limits text r a x pos after
      if limits.instructions < a.insts.length then throw ⟨pos, .patternTooLarge⟩
      else readAll steps r a after

def compile (o : Options) (l : Locale) (limits : CompileLimits) (text : List Char) :
    Sliced Program :=
  readAll ⟨o, l, limits.run⟩ limits text text.length .start .start 0

end Assembler

namespace Reader

def places (r : Reader) : List Nat := ((r.scope :: r.outer).map Scope.opened).dropLast

variable {d : Dialect} {limits : CompileLimits} {r r' : Reader} {x : Char} {offset : Nat}

theorem places_of_char (hr : r.char d limits x = .ok r') : r'.places = r.places := by
  obtain ⟨_, _, rfl⟩ := exists_push_of_char hr
  rfl

theorem places_of_quantify {times : Repetition} (hr : r.quantify d times = .ok r') :
    r'.places = r.places := by
  obtain ⟨times', size, rfl⟩ := exists_push_of_quantify hr
  rfl

theorem places_of_leaf {what : Leaf} (hr : r.leaf d what = .ok r') : r'.places = r.places := by
  obtain rfl := eq_push_of_leaf hr
  rfl

theorem places_of_step {token : Token} (hr : r.step d limits offset token = .ok r') :
    r'.places ⊆ offset :: r.places := by
  have hsame : r'.places = r.places → r'.places ⊆ offset :: r.places :=
    fun h => h ▸ List.subset_cons_self _ _
  cases moves_of_step hr with
  | char hr | starChar hr | caretChar hr => exact hsame (places_of_char hr)
  | any hr | backRef _ hr => exact hsame (places_of_leaf hr)
  | star hr | quantifier hr => exact hsame (places_of_quantify hr)
  | openGroup hr =>
    obtain rfl := eq_of_openGroup hr
    exact List.Subset.refl _
  | closeGroup hr =>
    obtain ⟨up, outer, houter, rfl⟩ := exists_of_closeGroup hr
    refine List.Subset.trans ?_ (List.subset_cons_self _ _)
    rw [places, places, houter]
    exact List.subset_cons_self _ _
  | bracket | word | lineStart | dollar | bar => exact hsame rfl

theorem places_of_readToken {c after : Cursor}
    (hr : r.readToken d limits x offset c = .ok (r', after)) : r'.places ⊆ offset :: r.places := by
  unfold readToken at hr
  obtain ⟨⟨token, mid⟩, -, hr⟩ := exists_of_bind_eq_ok hr
  obtain ⟨r₁, hstep, hr⟩ := exists_of_bind_eq_ok hr
  have hplaces := places_of_step (ok_of_mapError hstep)
  split at hr
  · obtain ⟨⟨b, last⟩, -, hr⟩ := exists_of_bind_eq_ok hr
    cases hr
    exact hplaces
  · cases hr
    exact hplaces

end Reader

/-- The pass is at the place of the cursor, and has written what the reader holds. -/
inductive Writes (t : Target) (text : List Char) :
    (Reader × Assembler) × Nat → Reader × Cursor → Prop
  | mk {r : Reader} {a : Assembler} {c : Cursor} (hin : c.In text) (h : Assembles t r a) :
    Writes t text ((r, a), c.offset) (r, c)

namespace Assembler

variable {t : Target} {limits : CompileLimits} {text : List Char} {r : Reader} {a : Assembler}
  {c : Cursor} {x : Char} {offset : Nat}

theorem readToken_follows (hin : c.In text) (hoffset : Inside text offset)
    (hpos : c.offset = offset + x.utf8Size) (h : Assembles t r a) (hholds : r.Holds) :
    Follows text (Writes t text) (readToken t limits text r a x offset c.offset)
      (r.readToken t.options.dialect limits x offset c) := by
  unfold readToken Reader.readToken
  refine (Sliced.token_follows hin hoffset).result.bind ?_
  rintro _ _ ⟨⟨token, hafter⟩, htoken⟩
  rename_i after
  refine (Follows.ofExcept hoffset _).bind ?_
  rintro r₁ _ ⟨rfl, hstep⟩
  have htoken := ok_of_mapError htoken
  obtain ⟨a₁, ha, h₁⟩ := h.step hholds (Token.ne_once_of_read htoken) hstep
  refine .lift ha ?_
  cases token with
  | bracket =>
    obtain ⟨rfl, rfl⟩ := Token.eq_of_read_bracket htoken
    refine (Sliced.bracket_follows hin hoffset hpos).bind ?_
    rintro _ _ ⟨b, hlast⟩
    exact .ok (.mk hlast (h₁.push_leaf (.bracket b) fun _ => nofun))
  | _ => exact .ok (.mk hafter h₁)

theorem program_follows (hin : c.In text) (hend : c.rest = []) (h : Assembles t r a)
    (hrefers : r.Refers) (hcounted : r.Counted t) (hplaces : ∀ pos ∈ r.places, Inside text pos) :
    Follows text (fun prog p => prog = Program.ofPattern t p) (program t limits text r a)
      (r.finish limits c.offset) := by
  have hoffset : c.offset = byteLength text := by
    obtain ⟨before, rfl, hbefore⟩ := hin
    rw [hend, List.append_nil, hbefore]
  unfold program
  cases houter : r.outer with
  | cons up outer =>
    have hopened : r.scope.opened ∈ r.places := by
      rw [Reader.places, houter]
      exact List.mem_cons_self
    have hfinish : r.finish limits c.offset = .error ⟨r.scope.opened, .unmatchedParen⟩ := by
      rw [Reader.finish, houter]
    rw [hfinish]
    exact .error (.inl (hplaces _ hopened))
  | nil =>
    have hlength : (Program.ofPattern t r.scope.items.reverse).insts.toList.length =
        r.size + Reader.chainEnd r.scope + 1 := by
      rw [Array.length_toList, Program.size_insts_ofPattern,
        hcounted.length_code hrefers.holds houter]
    refine .lift (h.finish hrefers.holds houter) ?_
    dsimp only
    rw [hlength]
    have hfinish : r.finish limits c.offset =
        if limits.instructions < r.size + Reader.chainEnd r.scope + 1 then
          .error ⟨c.offset, .patternTooLarge⟩
        else .ok r.scope.items.reverse := by
      rw [Reader.finish, houter]
    split
    · rename_i hlarge
      rw [hfinish, if_pos hlarge, hoffset]
      exact .error (.inr ⟨rfl, rfl⟩)
    · rename_i hsmall
      rw [if_neg hsmall] at hfinish
      rw [hfinish]
      have hforward := Program.forward_ofPattern t (hrefers.finish hfinish)
      refine .lift (hforward.firstBytes?_eq ?_) (.ok rfl)
      rw [← Array.length_toList, hlength]
      exact Nat.succ_pos _

theorem readAll_follows (hin : c.In text) {steps : Nat} (hsteps : c.rest.length ≤ steps)
    (h : Assembles t r a) (hrefers : r.Refers) (hcounted : r.Counted t) (ht : t.run = limits.run)
    (hplaces : ∀ pos ∈ r.places, Inside text pos) :
    Follows text (fun prog p => prog = Program.ofPattern t p)
      (readAll t limits text steps r a c.offset)
      (r.readAll t.options.dialect limits steps c) := by
  induction steps generalizing r a c with
  | zero =>
    have hend : c.rest = [] := List.length_eq_zero_iff.mp (Nat.le_zero.mp hsteps)
    exact program_follows hin hend h hrefers hcounted hplaces
  | succ steps ih =>
    unfold readAll Reader.readAll
    refine .lift hin.next_eq ?_
    cases hnext : c.next? with
    | none =>
      have hend : c.rest = [] := by
        unfold Cursor.next? at hnext
        split at hnext
        · assumption
        · cases hnext
      exact program_follows hin hend h hrefers hcounted hplaces
    | some found =>
      obtain ⟨x, mid⟩ := found
      obtain ⟨hrest, hpos⟩ := Cursor.next?_eq_some hnext
      have hmid := hin.of_yields (Cursor.yields_next? hnext)
      have hinside := hin.inside hrest
      refine (readToken_follows hmid hinside hpos h hrefers.holds).result.bind ?_
      rintro _ _ ⟨⟨hafter, h'⟩, hr⟩
      rename_i r' a' after
      have hcounted' := hcounted.readToken hrefers.holds ht hr
      have hlength : a'.insts.length = r'.size := by rw [h'.insts, hcounted'.size]
      dsimp only
      rw [hlength]
      split
      · exact .error (.inl hinside)
      · refine ih hafter ?_ h' (hrefers.readToken hr) hcounted' ?_
        · have hle := (Reader.bounds_of_readToken hr).2
          rw [hrest, List.length_cons] at hsteps
          omega
        · intro pos hmem
          rcases List.mem_cons.mp (Reader.places_of_readToken hr hmem) with rfl | hold
          · exact hinside
          · exact hplaces pos hold

end Assembler

/-- A pattern is compiled by slices of its text that start and end where characters do, and by
accesses to instructions, groups and entries of tables that exist. If it is rejected, then at the
start of one of its characters, or at its end for being too large. -/
theorem Program.compile_in_place (o : Options) (l : Locale) (limits : CompileLimits)
    (text : List Char) :
    (Assembler.compile o l limits text).run = some (compile o l limits text) ∧
      ∀ e, compile o l limits text = .error e →
        (∃ before after, text = before ++ after ∧ byteLength before = e.offset) ∧
          (e.offset < byteLength text ∨
            e.offset = byteLength text ∧ e.fault = .patternTooLarge) := by
  have hin : (Cursor.ofList text).In text := ⟨[], rfl, rfl⟩
  have hfollows : Follows text Eq (Assembler.compile o l limits text) (compile o l limits text) :=
    (Assembler.readAll_follows (t := ⟨o, l, limits.run⟩) hin (Nat.le_refl _) (.start _)
      Reader.start_refers Reader.counted_start rfl fun _ hmem => nomatch hmem).eq_map
  exact ⟨hfollows.eq_some, fun e he => (hfollows.pointsInto he).boundary⟩

/-- The bracket that is never closed starts behind the two bytes of the first character. -/
theorem Program.compile_in_place_unmatched :
    let text := ['é', '[', '€']
    (Assembler.compile {} .unicode {} text).run = some (.error ⟨2, .unmatchedBracket⟩) ∧
      2 < byteLength text := by
  intro text
  have herror : compile {} .unicode {} text = .error ⟨2, .unmatchedBracket⟩ := by decide
  obtain ⟨hrun, hplace⟩ := compile_in_place {} .unicode {} text
  obtain ⟨-, hlt | ⟨-, hlarge⟩⟩ := hplace _ herror
  · exact ⟨hrun.trans (congrArg some herror), hlt⟩
  · cases hlarge

end PosixRegex
