import PosixRegex.WeightSet

namespace PosixRegex

/-- Adding one weight, or all weights from `lo` to `hi`; there are none when `hi < lo`. -/
inductive Insertion
  | weight (w : UInt32)
  | range (lo hi : UInt32)

def Insertion.Adds (w : UInt32) : Insertion → Prop
  | weight v => w = v
  | range lo hi => lo ≤ w ∧ w ≤ hi

namespace WeightSet

def perform (s : WeightSet) : Insertion → WeightSet
  | .weight w => s.insert w.toNat
  | .range lo hi => s.insertRange lo.toNat hi.toNat

def ofInsertions (is : List Insertion) : WeightSet := is.foldl perform empty

end WeightSet

structure WordSet where
  /-- The weight of the first bit. -/
  base : Nat
  words : List (BitVec 64)
  deriving DecidableEq

namespace WordSet

def empty : WordSet := ⟨0, []⟩

/-- The offset of a weight, which must not lie in front of the first bit. -/
def offset? (s : WordSet) (w : Nat) : Option Nat := if s.base ≤ w then some (w - s.base) else none

def contains (s : WordSet) (w : Nat) : Bool :=
  (s.offset? w).any fun offset => s.words[offset / 64]?.any (·.getLsbD (offset % 64))

/-- Make room for `lo` at the front. A set without words starts there. -/
def reserveFront (s : WordSet) (lo : Nat) : WordSet :=
  let first := lo / 64 * 64
  if s.words.isEmpty then { s with base := first }
  else if first < s.base then ⟨first, List.replicate ((s.base - first) / 64) 0 ++ s.words⟩
  else s

def reserveBack? (s : WordSet) (hi : Nat) : Option WordSet := do
  let offset ← s.offset? hi
  return { s with words := s.words ++ List.replicate (offset / 64 + 1 - s.words.length) 0 }

def set? (s : WordSet) (w : Nat) : Option WordSet := do
  let offset ← s.offset? w
  if offset / 64 < s.words.length then
    return { s with words := s.words.modify (offset / 64) (· ||| BitVec.twoPow 64 (offset % 64)) }
  else none

def insertRange? (s : WordSet) (lo hi : Nat) : Option WordSet :=
  if hi < lo then some s
  else do
    let s ← (s.reserveFront lo).reserveBack? hi
    (List.range' lo (hi + 1 - lo)).foldlM set? s

def insert? (s : WordSet) (w : Nat) : Option WordSet := s.insertRange? w w

def perform? (s : WordSet) : Insertion → Option WordSet
  | .weight w => s.insert? w.toNat
  | .range lo hi => s.insertRange? lo.toNat hi.toNat

def ofInsertions? (is : List Insertion) : Option WordSet := is.foldlM perform? empty

/-- The places of the bits of a word, lowest first. The lowest one is taken away by the
predecessor. -/
def bits (word : BitVec 64) : List Nat :=
  if word = 0 then [] else word.ctz.toNat :: bits (word &&& (word - 1))
termination_by word.toNat
decreasing_by
  have hpos : 0 < word.toNat := by
    refine Nat.pos_of_ne_zero fun hzero => ?_
    exact absurd (BitVec.eq_of_toNat_eq hzero) ‹_›
  have hone : (1 : BitVec 64) ≤ word := by
    rw [BitVec.le_def]
    exact hpos
  rw [BitVec.toNat_and, BitVec.toNat_sub_of_le hone]
  exact Nat.lt_of_le_of_lt Nat.and_le_right (Nat.sub_lt hpos Nat.one_pos)

def narrow? (n : Nat) : Option Nat := if n < UInt32.size then some n else none

def weightsFrom? (base : Nat) : (i : Nat) → List (BitVec 64) → Option (List Nat)
  | _, [] => some []
  | i, word :: words => do
    let here ← ((bits word).map (base + i * 64 + ·)).mapM narrow?
    return here ++ (← weightsFrom? base (i + 1) words)

def extend? (rs : List ClosedRange) (w : Nat) : Option (List ClosedRange) :=
  match rs with
  | [] => some [⟨w, w⟩]
  | r :: rs => do
    let behind ← narrow? (r.hi + 1)
    return if behind = w then ⟨r.lo, w⟩ :: rs else ⟨w, w⟩ :: r :: rs

def ranges? (s : WordSet) : Option (List ClosedRange) := do
  let weights ← weightsFrom? s.base 0 s.words
  let rs ← weights.foldlM extend? []
  return rs.reverse

end WordSet

end PosixRegex
