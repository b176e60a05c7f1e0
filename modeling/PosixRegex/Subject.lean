import PosixRegex.Text.Bytes

/-!
Texts read by byte offset. Offsets count bytes of the UTF-8 encoding, and a character is found
only at the offset of its first byte.
-/

namespace PosixRegex

structure Subject where
  chars : List Char
  cells : Array (Option Char)
  cells_eq : cells = (layout chars).toArray

namespace Subject

def ofList (chars : List Char) : Subject := ⟨chars, (layout chars).toArray, rfl⟩

def ofString (s : String) : Subject := ofList s.toList

def size (s : Subject) : Nat := s.cells.size

/-- The character that starts at `pos`. There is none inside of a character, at the end or
beyond it. -/
def charAt? (s : Subject) (pos : Nat) : Option Char := s.cells[pos]?.join

def isBoundary (s : Subject) (pos : Nat) : Bool :=
  pos == s.size || (s.charAt? pos).isSome

def decode? (s : Subject) (pos : Nat) : Option (Char × Nat) :=
  (s.charAt? pos).map (fun c => (c, c.utf8Size))

/-- The last character that starts before `pos`. -/
def charBefore? (s : Subject) : Nat → Option Char
  | 0 => none
  | pos + 1 => (s.charAt? pos).or (s.charBefore? pos)

def accept (s : Subject) (p : Char → Bool) (pos : Nat) : Option Nat :=
  match s.charAt? pos with
  | none => none
  | some c => if p c then some (pos + c.utf8Size) else none

def acceptAll (s : Subject) (ps : List (Char → Bool)) (pos : Nat) : Option Nat :=
  ps.foldlM (fun here p => s.accept p here) pos

def slice (s : Subject) (start stop : Nat) : List Char :=
  (s.cells.extract start stop).toList.reduceOption

def text (s : Subject) (start stop : Nat) : String := String.ofList (s.slice start stop)

theorem size_eq (s : Subject) : s.size = byteLength s.chars := by
  rw [size, s.cells_eq, List.size_toArray, length_layout]

theorem charAt?_eq_some_iff {s : Subject} {pos : Nat} {c : Char} :
    s.charAt? pos = some c ↔ ∃ xs ys, s.chars = xs ++ c :: ys ∧ byteLength xs = pos := by
  rw [charAt?, s.cells_eq, List.getElem?_toArray, layout_join_eq_some_iff]

theorem charAt?_eq_none_of_size_le (s : Subject) {pos : Nat} (h : s.size ≤ pos) :
    s.charAt? pos = none := by
  simp only [size] at h
  simp [charAt?, h]

theorem accept_eq_some_iff {s : Subject} {p : Char → Bool} {pos next : Nat} :
    s.accept p pos = some next ↔
      ∃ c, s.charAt? pos = some c ∧ p c = true ∧ pos + c.utf8Size = next := by
  unfold accept
  cases s.charAt? pos with
  | none => simp
  | some c => by_cases hp : p c = true <;> simp [hp]

end Subject

end PosixRegex
