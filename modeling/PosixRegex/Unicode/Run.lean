namespace PosixRegex.Unicode

/-- The code points `first`, `first + step`, and so on up to `last`. -/
structure Run where
  first : Nat
  last : Nat
  step : Nat

/-- Every code point of the run lies `shift` away from its image. -/
structure ShiftedRun where
  run : Run
  shift : Int

/-- Halve the part of the table between `low` and `high` that may hold `code` until it has one
entry. Every step drops an entry, so as many steps as entries are enough. -/
def locateBetween {α : Type} (start : α → Nat) (table : Array α) (code : Nat) :
    Nat → Nat → Nat → Option α
  | 0, low, _ => table[low]?
  | steps + 1, low, high =>
    if high ≤ low + 1 then table[low]?
    else
      let middle := (low + high) / 2
      match table[middle]? with
      | none => none
      | some entry =>
        if start entry ≤ code then locateBetween start table code steps middle high
        else locateBetween start table code steps low middle

/-- The last entry of an ascending table that starts at or before `code`; the first entry when
there is none. -/
def locate {α : Type} (start : α → Nat) (table : Array α) (code : Nat) : Option α :=
  locateBetween start table code table.size 0 table.size

namespace Run

def holds (r : Run) (code : Nat) : Bool :=
  r.first ≤ code && code ≤ r.last && (code - r.first) % r.step == 0

def anyHolds (table : Array Run) (code : Nat) : Bool :=
  (locate Run.first table code).any (·.holds code)

end Run

namespace ShiftedRun

def apply (table : Array ShiftedRun) (c : Char) : Char :=
  match locate (·.run.first) table c.toNat with
  | none => c
  | some r => if r.run.holds c.toNat then Char.ofNat (c.toNat + r.shift).toNat else c

end ShiftedRun

end PosixRegex.Unicode
