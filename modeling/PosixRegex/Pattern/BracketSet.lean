import PosixRegex.Instruction
import PosixRegex.Pattern.Bracket
import PosixRegex.Pattern.Options

namespace PosixRegex

namespace BracketItem

def charWeights (o : Options) (l : Locale) (c : Char) : List ClosedRange :=
  let single (x : Char) : ClosedRange := ⟨Locale.uniqueWeight x, Locale.uniqueWeight x⟩
  single c :: (if o.ignoreCase then (l.opposite? c).toList.map single else [])

def oppositeWeights (l : Locale) (lo hi : Nat) : List ClosedRange :=
  (List.range' lo (hi + 1 - lo)).filterMap fun w =>
    ((Locale.charOfWeight? w).bind l.opposite?).map fun x =>
      ⟨Locale.uniqueWeight x, Locale.uniqueWeight x⟩

def weights (o : Options) (l : Locale) : BracketItem → List ClosedRange
  | char c => charWeights o l c
  | range lo hi =>
    let lo := Locale.uniqueWeight lo
    let hi := Locale.uniqueWeight hi
    ⟨lo, hi⟩ :: (if o.ignoreCase then oppositeWeights l lo hi else [])
  | equivalence c => (l.equivalents c).flatMap (charWeights o l)
  | cls _ => []

def classes (o : Options) : BracketItem → List CharClass
  | cls k => k :: (if o.ignoreCase then k.opposite?.toList else [])
  | _ => []

end BracketItem

namespace Bracket

def weights (b : Bracket) (o : Options) (l : Locale) : List ClosedRange :=
  b.items.flatMap (·.weights o l)

def classes (b : Bracket) (o : Options) : List CharClass := b.items.flatMap (·.classes o)

def fitsBytes (rs : List ClosedRange) : Bool := rs.all (·.hi ≤ 0xFF)

def narrowSet (b : Bracket) (o : Options) (l : Locale) : NarrowSet :=
  let listed := (b.weights o l).foldl
    (fun s r => s.insertRange (UInt8.ofNat r.lo) (UInt8.ofNat r.hi)) ByteSet.empty
  let listed := (b.classes o).foldl
    (fun s k => s.union (ByteSet.ofPred (fun x => l.isClass k (Char.ofNat x.toNat)))) listed
  if b.negated then
    let excluded := listed.complement
    ⟨if o.newlineSensitive then excluded.remove 10 else excluded, true⟩
  else ⟨listed, false⟩

def weightSet (b : Bracket) (o : Options) (l : Locale) : WeightSet :=
  let listed := (b.weights o l).foldl (fun s r => s.insertRange r.lo r.hi) WeightSet.empty
  let listed := (b.classes o).foldl WeightSet.addClass listed
  if b.negated then listed.negate o.newlineSensitive else listed

def consumer (b : Bracket) (o : Options) (l : Locale) : Consumer :=
  if l.isByteIndexed && fitsBytes (b.weights o l) then .narrow (b.narrowSet o l)
  else .weighted (b.weightSet o l)

end Bracket

end PosixRegex
