namespace PosixRegex

def byteLength : List Char → Nat
  | [] => 0
  | c :: cs => c.utf8Size + byteLength cs

@[simp] theorem byteLength_append (xs ys : List Char) :
    byteLength (xs ++ ys) = byteLength xs + byteLength ys := by
  induction xs with
  | nil => simp [byteLength]
  | cons x xs ih => simp [byteLength, ih, Nat.add_assoc]

theorem length_le_byteLength (cs : List Char) : cs.length ≤ byteLength cs := by
  induction cs with
  | nil => simp [byteLength]
  | cons c cs ih =>
    have hc := c.utf8Size_pos
    simp only [byteLength, List.length_cons]
    omega

/-- One cell for each byte: the character at its first byte, and nothing at the bytes after it. -/
def layout (cs : List Char) : List (Option Char) :=
  cs.flatMap (fun c => some c :: List.replicate (c.utf8Size - 1) none)

theorem length_layout (cs : List Char) : (layout cs).length = byteLength cs := by
  induction cs with
  | nil => rfl
  | cons c cs ih =>
    have hc := c.utf8Size_pos
    simp only [layout, List.flatMap_cons, List.length_append, List.length_cons,
      List.length_replicate, byteLength] at ih ⊢
    omega

/-- A character stands in the cell that the characters before it leave free. -/
theorem layout_join_eq_some_iff {cs : List Char} {pos : Nat} {c : Char} :
    (layout cs)[pos]?.join = some c ↔ ∃ xs ys, cs = xs ++ c :: ys ∧ byteLength xs = pos := by
  induction cs generalizing pos with
  | nil => simp [layout]
  | cons d ds ih =>
    have hd := d.utf8Size_pos
    have hl : (some d :: List.replicate (d.utf8Size - 1) (none : Option Char)).length =
        d.utf8Size := by
      simp only [List.length_cons, List.length_replicate]
      omega
    have hcut : layout (d :: ds) =
        (some d :: List.replicate (d.utf8Size - 1) none) ++ layout ds := by
      simp [layout]
    rw [hcut]
    by_cases hlt : pos < d.utf8Size
    · rw [List.getElem?_append_left (by omega)]
      constructor
      · intro h
        cases pos with
        | zero =>
          have hdc : d = c := by simpa using h
          exact ⟨[], ds, by simp [hdc], rfl⟩
        | succ n =>
          rw [List.getElem?_cons_succ, List.getElem?_replicate_of_lt (by omega)] at h
          simp at h
      · rintro ⟨xs, ys, hcs, rfl⟩
        cases xs with
        | nil =>
          obtain ⟨rfl, -⟩ := List.cons.inj hcs
          simp [byteLength]
        | cons x xs =>
          obtain ⟨rfl, -⟩ := List.cons.inj hcs
          simp only [byteLength] at hlt
          omega
    · rw [List.getElem?_append_right (by omega), hl, ih]
      constructor
      · rintro ⟨xs, ys, rfl, hpos⟩
        refine ⟨d :: xs, ys, rfl, ?_⟩
        simp only [byteLength]
        omega
      · rintro ⟨xs, ys, hcs, rfl⟩
        cases xs with
        | nil => exact absurd hd (by simpa [byteLength] using hlt)
        | cons x xs =>
          obtain ⟨rfl, hds⟩ := List.cons.inj hcs
          exact ⟨xs, ys, hds, by simp only [byteLength]; omega⟩

end PosixRegex
