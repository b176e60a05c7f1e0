import PosixRegex.RangeSet

namespace PosixRegex

/-- Bit `b` of the mask tells whether byte `b` is a member. -/
structure ByteSet where
  mask : BitVec 256
  deriving DecidableEq

namespace ByteSet

def empty : ByteSet := ⟨0⟩

def full : ByteSet := ⟨BitVec.allOnes 256⟩

def contains (s : ByteSet) (b : UInt8) : Bool := s.mask.getLsbD b.toNat

def insert (s : ByteSet) (b : UInt8) : ByteSet := ⟨s.mask ||| BitVec.twoPow 256 b.toNat⟩

def remove (s : ByteSet) (b : UInt8) : ByteSet := ⟨s.mask &&& ~~~BitVec.twoPow 256 b.toNat⟩

def union (s t : ByteSet) : ByteSet := ⟨s.mask ||| t.mask⟩

def complement (s : ByteSet) : ByteSet := ⟨~~~s.mask⟩

def all : List UInt8 := (List.range 256).map UInt8.ofNat

def toList (s : ByteSet) : List UInt8 := all.filter s.contains

def ofPred (p : UInt8 → Bool) : ByteSet := (all.filter p).foldl insert empty

def insertRange (s : ByteSet) (lo hi : UInt8) : ByteSet :=
  s.union (ofPred (fun b => lo ≤ b && b ≤ hi))

def isFull (s : ByteSet) : Bool := s == full

def isEmpty (s : ByteSet) : Bool := s == empty

def size (s : ByteSet) : Nat := s.toList.length

def ranges (s : ByteSet) : List ClosedRange := ClosedRange.group (s.toList.map UInt8.toNat)

@[simp] theorem contains_empty (b : UInt8) : empty.contains b = false := by
  simp [empty, contains]

@[simp] theorem contains_full (b : UInt8) : full.contains b = true := by
  have hb := b.toNat_lt
  rw [contains, full, BitVec.getLsbD_allOnes]
  simp
  omega

@[simp] theorem contains_union (s t : ByteSet) (b : UInt8) :
    (s.union t).contains b = (s.contains b || t.contains b) := by
  simp [union, contains]

@[simp] theorem contains_insert (s : ByteSet) (a b : UInt8) :
    (s.insert a).contains b = (s.contains b || a == b) := by
  have hb : b.toNat < 256 := b.toNat_lt
  rw [contains, insert, BitVec.getLsbD_or, BitVec.getLsbD_twoPow, contains]
  by_cases h : a = b
  · subst h
    simp [hb]
  · have hn : a.toNat ≠ b.toNat := fun e => h (UInt8.toNat_inj.mp e)
    simp [h, hn]

@[simp] theorem contains_complement (s : ByteSet) (b : UInt8) :
    s.complement.contains b = !s.contains b := by
  have hb : b.toNat < 256 := b.toNat_lt
  simp [complement, contains, hb]

@[simp] theorem contains_remove (s : ByteSet) (a b : UInt8) :
    (s.remove a).contains b = (s.contains b && !(a == b)) := by
  have hb : b.toNat < 256 := b.toNat_lt
  rw [contains, remove, BitVec.getLsbD_and, BitVec.getLsbD_not, BitVec.getLsbD_twoPow, contains]
  by_cases h : a = b
  · subst h
    simp [hb]
  · have hn : a.toNat ≠ b.toNat := fun e => h (UInt8.toNat_inj.mp e)
    simp [h, hn, hb]

theorem eq_of_contains {s t : ByteSet} (h : ∀ b, s.contains b = t.contains b) : s = t := by
  have hmask : s.mask = t.mask := by
    apply BitVec.eq_of_getLsbD_eq
    intro i hi
    have hb := h (UInt8.ofNat i)
    rw [contains, contains, UInt8.toNat_ofNat_of_lt' hi] at hb
    exact hb
  cases s
  cases t
  exact congrArg ByteSet.mk hmask

theorem mem_all (b : UInt8) : b ∈ all :=
  List.mem_map.mpr ⟨b.toNat, List.mem_range.mpr b.toNat_lt, UInt8.ofNat_toNat⟩

@[simp] theorem mem_toList {s : ByteSet} {b : UInt8} : b ∈ s.toList ↔ s.contains b = true := by
  simp [toList, mem_all]

theorem contains_foldl_insert (s : ByteSet) (bs : List UInt8) (b : UInt8) :
    (bs.foldl insert s).contains b = (s.contains b || bs.contains b) := by
  induction bs generalizing s with
  | nil => simp
  | cons a bs ih =>
    rw [List.foldl_cons, ih, contains_insert, List.contains_cons, BEq.comm, Bool.or_assoc]

@[simp] theorem contains_ofPred (p : UInt8 → Bool) (b : UInt8) : (ofPred p).contains b = p b := by
  rw [ofPred, contains_foldl_insert, contains_empty, Bool.false_or]
  cases hp : p b with
  | false => simp [hp]
  | true => simp [mem_all, hp]

@[simp] theorem contains_insertRange (s : ByteSet) (lo hi b : UInt8) :
    (s.insertRange lo hi).contains b = (s.contains b || (lo ≤ b && b ≤ hi)) := by
  rw [insertRange, contains_union, contains_ofPred]

end ByteSet

def leadByte (c : Char) : UInt8 :=
  let n := c.toNat
  if n < 0x80 then UInt8.ofNat n
  else if n < 0x800 then UInt8.ofNat (0xC0 + n / 0x40)
  else if n < 0x10000 then UInt8.ofNat (0xE0 + n / 0x1000)
  else UInt8.ofNat (0xF0 + n / 0x40000)

def ByteSet.ofLeads (cs : List Char) : ByteSet :=
  cs.foldl (fun s c => s.insert (leadByte c)) empty

/-- Characters up to U+00FF by their code; all others are in the set exactly when it was
negated. -/
structure NarrowSet where
  bytes : ByteSet
  negated : Bool
  deriving DecidableEq

namespace NarrowSet

def empty : NarrowSet := ⟨.empty, false⟩

def complement (s : NarrowSet) : NarrowSet := ⟨s.bytes.complement, !s.negated⟩

def contains (s : NarrowSet) (c : Char) : Bool :=
  if c.toNat < 256 then s.bytes.contains (UInt8.ofNat c.toNat) else s.negated

end NarrowSet

end PosixRegex
