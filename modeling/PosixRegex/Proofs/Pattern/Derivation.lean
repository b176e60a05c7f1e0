import Mathlib.Logic.Function.Basic
import PosixRegex.Pattern.Code
import PosixRegex.Proofs.Pattern.Part
import PosixRegex.Proofs.Repetition
import PosixRegex.Proofs.Subject
import PosixRegex.Search.Matcher

namespace PosixRegex

namespace BracketItem

def Lists (o : Options) (l : Locale) (c : Char) : BracketItem → Prop
  | char x => c = x ∨ o.ignoreCase = true ∧ l.opposite? x = some c
  | range lo hi => lo.toNat ≤ c.toNat ∧ c.toNat ≤ hi.toNat ∨
      o.ignoreCase = true ∧ ∃ x, lo.toNat ≤ x.toNat ∧ x.toNat ≤ hi.toNat ∧ l.opposite? x = some c
  | equivalence x => ∃ y ∈ l.equivalents x,
      c = y ∨ o.ignoreCase = true ∧ l.opposite? y = some c
  | cls k => l.isClass k c = true ∨
      o.ignoreCase = true ∧ ∃ k', k.opposite? = some k' ∧ l.isClass k' c = true

end BracketItem

def Bracket.Admits (b : Bracket) (o : Options) (l : Locale) (c : Char) : Prop :=
  if b.negated then
    (∀ i ∈ b.items, ¬i.Lists o l c) ∧ ¬(o.newlineSensitive = true ∧ c = '\n')
  else ∃ i ∈ b.items, i.Lists o l c

def Leaf.Admits (o : Options) (l : Locale) (c : Char) : Leaf → Prop
  | .char x => c = x ∨ o.ignoreCase = true ∧ l.opposite? x = some c
  | .any => ¬(o.newlineSensitive = true ∧ c = '\n')
  | .bracket b => b.Admits o l c
  | .backRef _ => False

/-- How a pattern is to be understood, and the subject that it is about. -/
structure Reading where
  options : Options
  locale : Locale
  subject : Subject
  flags : ExecFlags

namespace Reading

def HoldsBetween (r : Reading) (before after : List Char) : Assertion → Prop
  | .lineStart => if before = [] then r.flags.notBol = false
      else r.options.newlineSensitive = true ∧ before.getLast? = some '\n'
  | .lineEnd => if after = [] then r.flags.notEol = false
      else r.options.newlineSensitive = true ∧ after.head? = some '\n'
  | .word edge =>
    let wordBefore := before.getLast?.any r.locale.isWord
    let wordAfter := after.head?.any r.locale.isWord
    match edge with
    | .start => wordBefore = false ∧ wordAfter = true
    | .finish => wordBefore = true ∧ wordAfter = false
    | .either => wordBefore ≠ wordAfter
    | .neither => wordBefore = wordAfter

def Holds (r : Reading) (what : Assertion) (pos : Nat) : Prop :=
  ∃ before after, r.subject.chars = before ++ after ∧ byteLength before = pos ∧
    r.HoldsBetween before after what

/-- What one repetition of an item consumes, where `held` tells what the groups hold. -/
def Takes (r : Reading) (held : Nat → Option Span) (pos next : Nat) : Leaf → Prop
  | .backRef g => ∃ span cs ds, held g = some span ∧ r.subject.Spells span.start span.stop cs ∧
      r.subject.Spells pos next ds ∧
      if r.options.ignoreCase then List.Forall₂ (fun a b => r.locale.foldEq a b = true) cs ds
      else ds = cs
  | what => ∃ c, r.subject.Spells pos next [c] ∧ what.Admits r.options r.locale c

/-- What a number of repetitions of an item consume. -/
inductive Copies (r : Reading) (held : Nat → Option Span) (what : Leaf) : Nat → Nat → Nat → Prop
  | zero {pos : Nat} : Copies r held what 0 pos pos
  | succ {k pos mid next : Nat} (htakes : r.Takes held pos mid what)
      (hrest : Copies r held what k mid next) : Copies r held what (k + 1) pos next

end Reading

def Repetition.Allows (times : Repetition) (k : Nat) : Prop :=
  times.min ≤ k ∧ ∀ n, times.max? = some n → k ≤ n

/-- A place in the subject, with the stretches that the groups hold. -/
structure Stage where
  pos : Nat
  held : Nat → Option Span

/-- The stage behind an iteration of group `g` that started at `start`. -/
def Stage.closing (s : Stage) (g start : Nat) : Stage :=
  ⟨s.pos, Function.update s.held g (some ⟨start, s.pos⟩)⟩

/-- The text between two stages is what a part of a pattern describes. The last iteration of a
group may be empty before the group has all the iterations that it needs. -/
inductive Derives (r : Reading) : Part → Stage → Stage → Prop
  | done {n : Nat} {s : Stage} : Derives r (.seq .done n) s s
  | bar {rest : Pattern} {n : Nat} {s : Stage} : Derives r (.seq (.bar rest) n) s s
  | leaf {what : Leaf} {times : Repetition} {rest : Pattern} {n k next : Nat} {s s' : Stage}
      (hk : times.Allows k) (hcopies : r.Copies s.held what k s.pos next)
      (hrest : Derives r (.seq rest n) ⟨next, s.held⟩ s') :
      Derives r (.seq (.leaf what times rest) n) s s'
  | assert {what : Assertion} {rest : Pattern} {n : Nat} {s s' : Stage}
      (hw : r.Holds what s.pos) (hrest : Derives r (.seq rest n) s s') :
      Derives r (.seq (.assert what rest) n) s s'
  | skip {body rest : Pattern} {times : Repetition} {n : Nat} {s s' : Stage}
      (hmin : times.min = 0)
      (hrest : Derives r (.seq rest (n + 1 + body.groupCount))
        ⟨s.pos, Function.update s.held n none⟩ s') :
      Derives r (.seq (.group body times rest) n) s s'
  | group {body rest : Pattern} {times : Repetition} {n : Nat} {s mid s' : Stage}
      (hrounds : Derives r (.rounds body times n 0) s mid)
      (hrest : Derives r (.seq rest (n + 1 + body.groupCount)) mid s') :
      Derives r (.seq (.group body times rest) n) s s'
  | last {body : Pattern} {times : Repetition} {g count : Nat} {s mid : Stage}
      (hbody : Derives r (.alts body (g + 1)) s mid) (hmax : times.belowMax count = true)
      (hmin : times.min ≤ count + 1 ∨ mid.pos = s.pos) :
      Derives r (.rounds body times g count) s (mid.closing g s.pos)
  | again {body : Pattern} {times : Repetition} {g count : Nat} {s mid s' : Stage}
      (hbody : Derives r (.alts body (g + 1)) s mid) (hmax : times.belowMax count = true)
      (hrest : Derives r (.rounds body times g (count + 1)) (mid.closing g s.pos) s') :
      Derives r (.rounds body times g count) s s'
  | here {p : Pattern} {n : Nat} {s s' : Stage} (hseq : Derives r (.seq p n) s s') :
      Derives r (.alts p n) s s'
  | later {p q : Pattern} {n n' : Nat} {s s' : Stage} (hp : p.afterBar n = some (n', q))
      (hq : Derives r (.alts q n') s s') : Derives r (.alts p n) s s'

theorem Derives.char {r : Reading} {c : Char} {rest : Pattern} {n next : Nat} {s s' : Stage}
    (hc : r.subject.Spells s.pos next [c]) (hrest : Derives r (.seq rest n) ⟨next, s.held⟩ s') :
    Derives r (.seq (.leaf (.char c) .once rest) n) s s' := by
  have hone : Repetition.once.Allows 1 :=
    ⟨Nat.le_refl 1, fun n hn => Option.some.inj hn ▸ Nat.le_refl n⟩
  exact .leaf hone (.succ ⟨c, hc, Or.inl rfl⟩ .zero) hrest

end PosixRegex
