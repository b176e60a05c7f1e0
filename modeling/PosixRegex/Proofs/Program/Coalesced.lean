import Mathlib.Data.List.Chain
import PosixRegex.Proofs.Pattern.Repetitions
import PosixRegex.Proofs.Program.Assembler

namespace PosixRegex

/-- The atom can have a repetition other than `once`: one repetition of it consumes a single
character or the text of a group, or it marks a group. -/
def Atom.Repeatable : Atom → Prop
  | consume (.backRef _) | consume (.backRefFold _) | enter _ | leave _ => True
  | a => a.isSingle = true

/-- The repetition of an instruction is one that its atom can have. A literal of several characters
is not repeated, and not longer than a run can be. -/
structure Inst.Sound (run : Nat) (i : Inst) : Prop where
  bounded : i.times.Bounded
  repeatable (h : i.times ≠ .once) : i.atom.Repeatable
  length (n : Nat) (hn : i.atom.literalLength? = some n) (h : i.atom.isSingle = false) :
    i.times = .once ∧ 2 ≤ n ∧ n ≤ run

def Inst.plainLength? (i : Inst) : Option Nat :=
  if i.times = .once then i.atom.literalLength? else none

/-- Two literals without repetitions follow each other only if the first one is full. -/
def Inst.Parts (run : Nat) (i j : Inst) : Prop :=
  ∀ m n, i.plainLength? = some m → j.plainLength? = some n → m = run

/-- Sound instructions whose literals are as long as they can be. -/
structure Coalesced (run : Nat) (code : List Inst) : Prop where
  sound : ∀ i ∈ code, i.Sound run
  maximal : code.IsChain (Inst.Parts run)

variable {t : Target} {run : Nat} {i j : Inst} {xs ys : List Inst} {times : Repetition}

namespace Inst

theorem sound_ofAtom {a : Atom} (ha : a.literalLength? = none) : (ofAtom a).Sound run where
  bounded := trivial
  repeatable h := absurd rfl h
  length n hn _ := by
    rw [ofAtom, ha] at hn
    cases hn

theorem sound_of_repeatable (htimes : i.times.Bounded) (hi : i.atom.Repeatable)
    (hsingle : ∀ n, i.atom.literalLength? = some n → i.atom.isSingle = true) : i.Sound run where
  bounded := htimes
  repeatable _ := hi
  length n hn h := by
    rw [hsingle n hn] at h
    cases h

theorem parts_left (hi : i.plainLength? = none) : i.Parts run j := by
  intro m n hm
  rw [hi] at hm
  cases hm

theorem parts_right (hj : j.plainLength? = none) : i.Parts run j := by
  intro m n _ hn
  rw [hj] at hn
  cases hn

theorem plainLength?_of_atom (hi : i.atom.literalLength? = none) : i.plainLength? = none := by
  rw [plainLength?, hi]
  exact ite_self none

theorem plainLength?_of_times (hi : i.times ≠ .once) : i.plainLength? = none := if_neg hi

end Inst

namespace Target

theorem isSingle_literal (t : Target) (c : Char) : (t.literal [c]).isSingle = true := by
  unfold literal
  split <;> rfl

theorem repeatable_consumer (t : Target) (what : Leaf) :
    (Atom.consume (t.consumer what)).Repeatable := by
  cases what with
  | char c =>
    rw [consumer, literal]
    split <;> exact rfl
  | any =>
    rw [consumer]
    split <;> exact rfl
  | bracket b =>
    rw [consumer, Bracket.consumer]
    split <;> exact rfl
  | backRef g =>
    rw [consumer]
    split <;> trivial

theorem sound_consumer (t : Target) (what : Leaf) (htimes : times.Bounded) :
    Inst.Sound run ⟨.consume (t.consumer what), times⟩ := by
  refine Inst.sound_of_repeatable htimes (t.repeatable_consumer what) fun n hn => ?_
  by_cases hchar : ∃ c, what = .char c
  · obtain ⟨c, rfl⟩ := hchar
    exact t.isSingle_literal c
  · exact absurd ((t.literalLength?_consumer (not_exists.mp hchar)).symm.trans hn) (by simp)

theorem plainLength?_consumer (t : Target) {what : Leaf}
    (h : ∀ c, what = .char c → times = .once → False) :
    Inst.plainLength? ⟨.consume (t.consumer what), times⟩ = none := by
  by_cases hchar : ∃ c, what = .char c
  · obtain ⟨c, rfl⟩ := hchar
    exact Inst.plainLength?_of_times fun honce => h c rfl honce
  · exact Inst.plainLength?_of_atom (t.literalLength?_consumer (not_exists.mp hchar))

theorem eq_of_mem_flush {pending : List Char} (hi : i ∈ t.flush pending) :
    pending ≠ [] ∧ i = .ofAtom (.consume (t.literal pending.reverse)) := by
  unfold flush at hi
  split at hi
  · cases hi
  · rename_i hne
    exact ⟨by simpa using hne, List.mem_singleton.mp hi⟩

theorem literalLength?_of_mem_flush {pending : List Char} (hi : i ∈ t.flush pending) :
    i.atom.literalLength? = some pending.length := by
  obtain ⟨hne, rfl⟩ := eq_of_mem_flush hi
  have hlength := Consumer.literalLength?_literal t (mt List.reverse_eq_nil_iff.mp hne)
  rwa [List.length_reverse] at hlength

theorem sound_of_mem_flush {pending : List Char} (hrun : pending.length ≤ t.run)
    (hi : i ∈ t.flush pending) : i.Sound t.run := by
  have hlength := literalLength?_of_mem_flush hi
  obtain ⟨hne, rfl⟩ := eq_of_mem_flush hi
  refine ⟨trivial, fun h => absurd rfl h, fun n hn hsingle => ?_⟩
  obtain rfl := Option.some.inj (hlength.symm.trans hn)
  refine ⟨rfl, ?_, hrun⟩
  obtain _ | ⟨c, _ | ⟨c', cs⟩⟩ := pending
  · exact absurd rfl hne
  · exact absurd ((t.isSingle_literal c).symm.trans hsingle) (by decide)
  · simp

end Target

namespace Coalesced

theorem nil : Coalesced run [] := ⟨fun _ hi => (nomatch hi), List.isChain_nil⟩

theorem singleton (h : i.Sound run) : Coalesced run [i] :=
  ⟨List.forall_mem_singleton.mpr h, List.isChain_singleton i⟩

theorem append (hxs : Coalesced run xs) (hys : Coalesced run ys)
    (h : ∀ i ∈ xs.getLast?, ∀ j ∈ ys.head?, i.Parts run j) : Coalesced run (xs ++ ys) where
  sound := List.forall_mem_append.mpr ⟨hxs.sound, hys.sound⟩
  maximal := List.isChain_append.mpr ⟨hxs.maximal, hys.maximal, h⟩

/-- Around an instruction that is no literal, or a repeated one, any two pieces fit. -/
theorem separated (hxs : Coalesced run xs) (hi : i.Sound run) (hplain : i.plainLength? = none)
    (hys : Coalesced run ys) : Coalesced run (xs ++ i :: ys) := by
  refine hxs.append ((singleton hi).append hys fun i' hi' j _ => ?_) fun j _ i' hi' => ?_
  · obtain rfl := Option.mem_some.mp hi'
    exact Inst.parts_left hplain
  · obtain rfl := Option.mem_some.mp hi'
    exact Inst.parts_right hplain

theorem separated_ofAtom {a : Atom} (hxs : Coalesced run xs) (ha : a.literalLength? = none)
    (hys : Coalesced run ys) : Coalesced run (xs ++ .ofAtom a :: ys) :=
  hxs.separated (Inst.sound_ofAtom ha) (Inst.plainLength?_of_atom ha) hys

theorem chain {g : Nat} {bs : List (List Inst)} (h : ∀ b ∈ bs, Coalesced run b) :
    Coalesced run (chain g bs) := by
  fun_induction PosixRegex.chain g bs with
  | case1 => exact nil
  | case2 last =>
    have hlast := h last List.mem_cons_self
    exact nil.separated_ofAtom rfl (hlast.separated_ofAtom rfl nil)
  | case3 first others _ ih =>
    obtain ⟨hfirst, hothers⟩ := List.forall_mem_cons.mp h
    exact nil.separated_ofAtom rfl (hfirst.separated_ofAtom rfl (ih hothers))

theorem link {g : Nat} {bs : List (List Inst)} (h : ∀ b ∈ bs, Coalesced run b) :
    Coalesced run (link g bs) := by
  unfold PosixRegex.link
  split
  · exact List.forall_mem_singleton.mp h
  · exact chain h

theorem prepend {bs : List (List Inst)} (h : ∀ b ∈ bs, Coalesced run b)
    (hxs : ∀ b, Coalesced run b → Coalesced run (xs ++ b)) :
    ∀ b ∈ prepend xs bs, Coalesced run b := by
  cases bs with
  | nil =>
    have hcode := hxs [] nil
    rw [List.append_nil] at hcode
    exact List.forall_mem_singleton.mpr hcode
  | cons first others =>
    obtain ⟨hfirst, hothers⟩ := List.forall_mem_cons.mp h
    exact List.forall_mem_cons.mpr ⟨hxs first hfirst, hothers⟩

theorem flush {pending : List Char} (h : pending.length ≤ t.run) :
    Coalesced t.run (t.flush pending) where
  sound _ hi := t.sound_of_mem_flush h hi
  maximal := by
    unfold Target.flush
    split
    · exact List.isChain_nil
    · exact List.isChain_singleton _

theorem flush_append {pending : List Char} (h : pending.length = t.run)
    (hxs : Coalesced t.run xs) : Coalesced t.run (t.flush pending ++ xs) := by
  refine (flush h.le).append hxs fun i hi j _ m n hm _ => ?_
  have hmem := List.mem_of_getLast? hi
  have hlength := t.literalLength?_of_mem_flush hmem
  obtain ⟨-, rfl⟩ := t.eq_of_mem_flush hmem
  exact (Option.some.inj (hm.symm.trans hlength)).trans h

theorem flush_separated {pending : List Char} (h : pending.length ≤ t.run) (hi : i.Sound t.run)
    (hplain : i.plainLength? = none) (hxs : Coalesced t.run xs) :
    Coalesced t.run (t.flush pending ++ [i] ++ xs) := by
  rw [List.append_assoc]
  exact (flush h).separated hi hplain hxs

theorem branches {p : Pattern} {n : Nat} {pending : List Char} (hrun : 1 ≤ t.run)
    (hp : p.Repeats Repetition.Bounded) (hpending : pending.length ≤ t.run) :
    ∀ b ∈ p.branches t n pending, Coalesced t.run b := by
  fun_induction Pattern.branches t n pending p with
  | case1 next pending => exact List.forall_mem_singleton.mpr (flush hpending)
  | case2 next pending c rest hlt ih => exact ih hp.2 hlt
  | case3 next pending c rest hlt ih =>
    have hfull : pending.length = t.run := Nat.le_antisymm hpending (Nat.le_of_not_lt hlt)
    exact prepend (ih hp.2 hrun) fun b => flush_append hfull
  | case4 next pending what times rest hnot ih =>
    exact prepend (ih hp.2 (Nat.zero_le _)) fun b =>
      flush_separated hpending (t.sound_consumer what hp.1) (t.plainLength?_consumer hnot)
  | case5 next pending what rest ih =>
    exact prepend (ih hp (Nat.zero_le _)) fun b =>
      flush_separated hpending (Inst.sound_ofAtom rfl) rfl
  | case6 next pending body times rest inner ihbody ihrest =>
    obtain ⟨hbody, htimes, hrest⟩ := hp
    have hinner : Coalesced t.run inner := link (ihbody hbody (Nat.zero_le _))
    have hmark : ∀ a : Atom, a.Repeatable → a.literalLength? = none → Inst.Sound t.run ⟨a, times⟩ :=
      fun a ha hlength => Inst.sound_of_repeatable htimes ha fun n hn => by
        cases hlength.symm.trans hn
    refine prepend (ihrest hrest (Nat.zero_le _)) fun b hb => ?_
    have hend := hinner.separated (hmark (.leave next) trivial rfl)
      (Inst.plainLength?_of_atom rfl) hb
    have hstart := (flush hpending).separated (hmark (.enter next) trivial rfl)
      (Inst.plainLength?_of_atom rfl) hend
    simpa using hstart
  | case7 next pending rest ih =>
    exact List.forall_mem_cons.mpr ⟨flush hpending, ih hp (Nat.zero_le _)⟩

theorem code {p : Pattern} (hrun : 1 ≤ t.run) (hp : p.Repeats Repetition.Bounded) :
    Coalesced t.run (p.code t) :=
  (link (branches hrun hp (Nat.zero_le _))).separated_ofAtom rfl nil

end Coalesced

namespace Program

/-- Repetitions stand where a search expects them, and literals are as long as they can be. -/
structure Condensed (p : Program) : Prop where
  /-- Only what consumes one character, a back reference and a marker of a group are repeated. -/
  repeatable (i : Inst) (hi : i ∈ p.insts) (h : i.times ≠ .once) : i.atom.Repeatable
  bounded (i : Inst) (hi : i ∈ p.insts) : i.times.Bounded
  text (i : Inst) (hi : i ∈ p.insts) (cs : List Char) (hcs : i.atom = .consume (.text cs)) :
    i.times = .once ∧ 2 ≤ cs.length ∧ cs.length ≤ 255
  textFold (i : Inst) (hi : i ∈ p.insts) (pairs : List (Char × Char))
    (hpairs : i.atom = .consume (.textFold pairs)) :
    i.times = .once ∧ 2 ≤ pairs.length ∧ pairs.length ≤ 255
  /-- Only a literal that is full stands in front of another one. -/
  maximal (pc : Nat) (i j : Inst) (hi : p.insts[pc]? = some i) (hj : p.insts[pc + 1]? = some j)
    (htimes : i.times = .once ∧ j.times = .once) (m n : Nat)
    (hm : i.atom.literalLength? = some m) (hn : j.atom.literalLength? = some n) : m = 255

variable {o : Options} {l : Locale} {text : List Char} {prog : Program} {instructions : Nat}

theorem coalesced_of_compile {limits : CompileLimits} (hrun : 1 ≤ limits.run)
    (h : compile o l limits text = .ok prog) : Coalesced limits.run prog.insts.toList := by
  obtain ⟨p, hp, rfl⟩ := exists_ofPattern h
  exact Coalesced.code (t := ⟨o, l, limits.run⟩) hrun (Pattern.bounded_of_read hp)

/-- Every compiled program is condensed, whatever the number of instructions that it may have. -/
theorem condensed_of_compile (h : compile o l { instructions := instructions } text = .ok prog) :
    prog.Condensed := by
  obtain ⟨hsound, hmaximal⟩ := coalesced_of_compile (Nat.le_of_ble_eq_true rfl) h
  have hsound : ∀ i ∈ prog.insts, i.Sound 255 := fun i hi => hsound i (Array.mem_toList_iff.mpr hi)
  refine ⟨fun i hi => (hsound i hi).repeatable, fun i hi => (hsound i hi).bounded,
    fun i hi cs hcs => ?_, fun i hi pairs hpairs => ?_, fun pc i j hi hj htimes m n hm hn => ?_⟩
  · exact (hsound i hi).length cs.length (by rw [hcs]; rfl) (by rw [hcs]; rfl)
  · exact (hsound i hi).length pairs.length (by rw [hpairs]; rfl) (by rw [hpairs]; rfl)
  · rw [← Array.getElem?_toList, List.getElem?_eq_some_iff] at hi hj
    obtain ⟨_, hi⟩ := hi
    obtain ⟨hlt, hj⟩ := hj
    have hparts := List.isChain_iff_getElem.mp hmaximal pc hlt
    rw [hi, hj] at hparts
    exact hparts m n ((if_pos htimes.1).trans hm) ((if_pos htimes.2).trans hn)

def crowded : Pattern :=
  (List.replicate 257 'a').foldr (fun c rest => .leaf (.char c) .once rest)
    (.group (.leaf (.char 'b') .star (.leaf (.char 'c') .once (.leaf (.char 'd') .once .done)))
      (.between 2 255) (.leaf (.backRef 1) .plus .done))

theorem condensed_of_compile_crowded :
    (ofPattern ⟨{ dialect := .extended }, .posix, 255⟩ crowded).Condensed :=
  condensed_of_compile
    (show compile { dialect := .extended } .posix { instructions := 65535 }
        (List.replicate 257 'a' ++ ['(', 'b', '*', 'c', 'd', ')', '\x7b', '2', ',', '2', '5', '5',
          '\x7d', '\\', '1', '+'])
      = .ok (ofPattern ⟨{ dialect := .extended }, .posix, 255⟩ crowded) from
        compile_of_read (by decide +kernel) .posix)

end Program

end PosixRegex
