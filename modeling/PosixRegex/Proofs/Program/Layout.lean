import PosixRegex.Program.Compile
import PosixRegex.Proofs.Pattern.Part

namespace PosixRegex

/-- The part of a pattern that the instructions from the first place up to the second one are
made for. -/
inductive Laid (prog : Program) (t : Target) : Part → Nat → Nat → Prop
  | done {n a : Nat} : Laid prog t (.seq .done n) a a
  | bar {rest : Pattern} {n a : Nat} : Laid prog t (.seq (.bar rest) n) a a
  | run {cs : List Char} {rest : Pattern} {n a b : Nat} (hcs : cs ≠ [])
      (hi : prog.insts[a]? = some (.ofAtom (.consume (t.literal cs))))
      (hrest : Laid prog t (.seq rest n) (a + 1) b) : Laid prog t (.seq (.chars cs rest) n) a b
  | leaf {what : Leaf} {times : Repetition} {rest : Pattern} {n a b : Nat}
      (hi : prog.insts[a]? = some ⟨.consume (t.consumer what), times⟩)
      (hrest : Laid prog t (.seq rest n) (a + 1) b) :
      Laid prog t (.seq (.leaf what times rest) n) a b
  | assert {what : Assertion} {rest : Pattern} {n a b : Nat}
      (hi : prog.insts[a]? = some (.ofAtom (.assert what)))
      (hrest : Laid prog t (.seq rest n) (a + 1) b) : Laid prog t (.seq (.assert what rest) n) a b
  | group {body rest : Pattern} {times : Repetition} {n a b c : Nat}
      (hi : prog.insts[a]? = some ⟨.enter n, times⟩)
      (hbody : Laid prog t (.alts body (n + 1)) (a + 1) c)
      (hl : prog.insts[c]? = some ⟨.leave n, times⟩) (hg : prog.groups[n]? = some ⟨a, c⟩)
      (hrest : Laid prog t (.seq rest (n + 1 + body.groupCount)) (c + 1) b) :
      Laid prog t (.seq (.group body times rest) n) a b
  | only {p : Pattern} {n a b : Nat} (hp : p.afterBar n = none)
      (hseq : Laid prog t (.seq p n) a b) : Laid prog t (.alts p n) a b
  | headed {p : Pattern} {n a b : Nat} (hchain : Laid prog t (.chain p n) a b) :
      Laid prog t (.alts p n) a b
  | last {p : Pattern} {n a b d : Nat} (hp : p.afterBar n = none)
      (hi : prog.insts[a]? = some (.ofAtom (.branch (d + 1)))) (hd : a + (d + 1) = b)
      (hseq : Laid prog t (.seq p n) (a + 1) b)
      (he : prog.insts[b]? = some (.ofAtom (.branch 0))) : Laid prog t (.chain p n) a (b + 1)
  | more {p q : Pattern} {n n' a b c d g : Nat} {span : GroupSpan}
      (hp : p.afterBar n = some (n', q))
      (hi : prog.insts[a]? = some (.ofAtom (.branch (d + 1)))) (hd : a + (d + 1) = b + 1)
      (hseq : Laid prog t (.seq p n) (a + 1) b) (hj : prog.insts[b]? = some (.ofAtom (.join g)))
      (hg : prog.groups[g]? = some span) (hstop : span.stop = c)
      (hchain : Laid prog t (.chain q n') (b + 1) c) : Laid prog t (.chain p n) a c

namespace Laid

variable {prog : Program} {t : Target} {part : Part} {a b : Nat}

theorem le (h : Laid prog t part a b) : a ≤ b := by
  induction h with
  | done | bar => exact Nat.le_refl _
  | run | leaf | assert | group | only | headed | last | more => omega

theorem chain_head {p : Pattern} {n : Nat} (h : Laid prog t (.chain p n) a b) :
    ∃ d, prog.insts[a]? = some (.ofAtom (.branch (d + 1))) := by
  cases h with
  | last _ hi => exact ⟨_, hi⟩
  | more _ hi => exact ⟨_, hi⟩

/-- The end of an alternative leads forward, and the head of the next one is behind it. -/
theorem join_forward (h : Laid prog t part a b) {pc g : Nat} {times : Repetition}
    (ha : a ≤ pc) (hb : pc < b) (hj : prog.insts[pc]? = some ⟨.join g, times⟩) :
    ∃ span d, prog.groups[g]? = some span ∧ pc < span.stop ∧
      prog.insts[pc + 1]? = some (.ofAtom (.branch (d + 1))) := by
  induction h with
  | done | bar => omega
  | @run cs rest n a b _ hi hrest ih | @leaf what times rest n a b hi hrest ih
    | @assert what rest n a b hi hrest ih =>
    by_cases hpc : pc = a
    · subst hpc
      rw [hi] at hj
      cases hj
    · exact ih (by omega) hb
  | @group body rest times n a b c hi hbody hl hg hrest ihbody ihrest =>
    by_cases hpc : pc = a
    · subst hpc
      rw [hi] at hj
      cases hj
    · by_cases hc : pc = c
      · subst hc
        rw [hl] at hj
        cases hj
      · by_cases hlt : pc < c
        · exact ihbody (by omega) hlt
        · exact ihrest (by omega) hb
  | only _ _ ih | headed _ ih => exact ih ha hb
  | @last p n a b d _ hi hd hseq he ih =>
    by_cases hpc : pc = a
    · subst hpc
      rw [hi] at hj
      cases hj
    · by_cases hbpc : pc = b
      · subst hbpc
        rw [he] at hj
        cases hj
      · exact ih (by omega) (by omega)
  | @more p q n n' a b c d g' span _ hi hd hseq hjoin hg hstop hchain ihseq ihchain =>
    by_cases hpc : pc = a
    · subst hpc
      rw [hi] at hj
      cases hj
    · by_cases hbpc : pc = b
      · subst hbpc
        obtain rfl : g' = g := by
          rw [hjoin] at hj
          cases hj
          rfl
        have := hchain.le
        obtain ⟨d', hhead⟩ := hchain.chain_head
        exact ⟨span, d', hg, by omega, hhead⟩
      · by_cases hlt : pc < b
        · exact ihseq (by omega) hlt
        · exact ihchain (by omega) hb

end Laid

end PosixRegex
