import Mathlib.Data.List.ReduceOption
import PosixRegex.Proofs.Search.Consume

namespace PosixRegex

theorem mem_layout_iff {cs : List Char} {c : Char} : some c ∈ layout cs ↔ c ∈ cs := by
  simp [layout, List.mem_replicate]

namespace Subject

structure Line where
  start : Nat
  chars : List Char

def linesFrom : (start : Nat) → List (List Char) → List Line
  | _, [] => []
  | start, cs :: rest => ⟨start, cs⟩ :: linesFrom (start + byteLength cs + 1) rest

def lines (s : Subject) : List Line := linesFrom 0 (s.chars.splitOn '\n')

/-- `line` is a line of the subject, `before` stands before it and `after` behind it. -/
structure HasLine (s : Subject) (before line after : List Char) : Prop where
  chars : s.chars = before ++ (line ++ after)
  opens {c : Char} (hc : before.getLast? = some c) : c = '\n'
  closes {c : Char} (hc : after.head? = some c) : c = '\n'
  plain : '\n' ∉ line

theorem byteLength_append_line (before line : List Char) :
    byteLength (before ++ line) = byteLength before + (ofList line).size := by
  rw [Subject.size_eq, byteLength_append]
  rfl

namespace HasLine

variable {s : Subject} {before line after : List Char} (h : s.HasLine before line after)
  {pos : Nat}

include h

theorem size_eq :
    s.size = byteLength before + (ofList line).size + byteLength after := by
  rw [Subject.size_eq, Subject.size_eq, h.chars, byteLength_append, byteLength_append, ofList,
    Nat.add_assoc]

theorem cells_toList : s.cells.toList = layout before ++ ((ofList line).cells.toList ++ layout after) := by
  rw [s.cells_eq, h.chars, layout_append, layout_append]
  rfl

theorem charAt?_of_lt (hpos : pos < (ofList line).size) :
    s.charAt? (byteLength before + pos) = (ofList line).charAt? pos := by
  have hcell : s.cells[byteLength before + pos]? = (ofList line).cells[pos]? := by
    rw [← Array.getElem?_toList, ← Array.getElem?_toList, h.cells_toList, ← length_layout before,
      List.getElem?_append_right (Nat.le_add_right _ _), Nat.add_sub_cancel_left]
    exact List.getElem?_append_left hpos
  rw [charAt?, charAt?, hcell]

theorem charAt?_stop : s.charAt? (byteLength before + (ofList line).size) = after.head? := by
  have hchars : s.chars = (before ++ line) ++ after := by
    rw [h.chars, List.append_assoc]
  rw [← byteLength_append_line, charAt?_byteLength hchars]

theorem charAt?_stop_eq_newline (hne : byteLength before + (ofList line).size ≠ s.size) :
    s.charAt? (byteLength before + (ofList line).size) = some '\n' := by
  rw [h.charAt?_stop]
  cases hc : after.head? with
  | none =>
    have hsize := h.size_eq
    rw [List.head?_eq_none_iff.mp hc] at hsize
    exact absurd hsize.symm hne
  | some c => exact congrArg some (h.closes hc)

theorem charAt?_pred_eq_newline (hne : byteLength before ≠ 0) :
    s.charAt? (byteLength before - 1) = some '\n' := by
  have hbefore : before ≠ [] := by
    rintro rfl
    exact hne rfl
  have hlast := List.getLast?_eq_getLast_of_ne_nil hbefore
  rw [charAt?_pred_eq_newline_iff h.chars hbefore, hlast]
  exact congrArg some (h.opens hlast)

theorem charBefore?_of_le (hpos : pos ≤ (ofList line).size) :
    s.charBefore? (byteLength before + pos) =
      ((ofList line).charBefore? pos).or before.getLast? := by
  induction pos with
  | zero => exact charBefore?_byteLength h.chars
  | succ pos ih =>
    rw [← Nat.add_assoc, charBefore?, charBefore?, h.charAt?_of_lt hpos, ih (Nat.le_of_succ_le hpos),
      Option.or_assoc]

/-- What a newline does not have, the character before a place in the line has only there. -/
theorem any_charBefore?_of_le {p : Char → Bool} (hp : p '\n' = false)
    (hpos : pos ≤ (ofList line).size) :
    (s.charBefore? (byteLength before + pos)).any p = ((ofList line).charBefore? pos).any p := by
  rw [h.charBefore?_of_le hpos]
  cases (ofList line).charBefore? pos with
  | some c => rfl
  | none =>
    cases hc : before.getLast? with
    | none => rfl
    | some c =>
      obtain rfl := h.opens hc
      exact hp

theorem any_charAt?_of_le {p : Char → Bool} (hp : p '\n' = false)
    (hpos : pos ≤ (ofList line).size) :
    (s.charAt? (byteLength before + pos)).any p = ((ofList line).charAt? pos).any p := by
  rcases Nat.lt_or_eq_of_le hpos with hlt | rfl
  · rw [h.charAt?_of_lt hlt]
  · rw [charAt?_eq_none_of_size_le (ofList line) (Nat.le_refl _), h.charAt?_stop]
    cases hc : after.head? with
    | none => rfl
    | some c =>
      obtain rfl := h.closes hc
      exact hp

theorem isBoundary_of_le (hpos : pos ≤ (ofList line).size) :
    s.isBoundary (byteLength before + pos) = (ofList line).isBoundary pos := by
  rcases Nat.lt_or_eq_of_le hpos with hlt | rfl
  · have hsize := h.size_eq
    have hne : ¬byteLength before + pos = s.size := by omega
    have hne' : ¬pos = (ofList line).size := by omega
    rw [isBoundary, isBoundary, beq_false_of_ne hne, beq_false_of_ne hne', h.charAt?_of_lt hlt]
  · have hboundary : s.isBoundary (byteLength before + (ofList line).size) = true :=
      isBoundary_iff.mpr ⟨before ++ line, after, by rw [h.chars, List.append_assoc],
        byteLength_append_line before line⟩
    rw [hboundary, isBoundary, beq_self_eq_true, Bool.true_or]

theorem accept_of_le {p : Char → Bool} (hp : p '\n' = false) (hpos : pos ≤ (ofList line).size) :
    s.accept p (byteLength before + pos) =
      ((ofList line).accept p pos).map (byteLength before + ·) := by
  unfold accept
  rcases Nat.lt_or_eq_of_le hpos with hlt | rfl
  · rw [h.charAt?_of_lt hlt]
    cases (ofList line).charAt? pos with
    | none => rfl
    | some c =>
      simp only [Nat.add_assoc]
      split <;> rfl
  · rw [charAt?_eq_none_of_size_le (ofList line) (Nat.le_refl _), h.charAt?_stop]
    cases hc : after.head? with
    | none => rfl
    | some c =>
      obtain rfl := h.closes hc
      simp [hp]

theorem acceptAll_of_le {ps : List (Char → Bool)} (hps : ∀ p ∈ ps, p '\n' = false)
    (hpos : pos ≤ (ofList line).size) :
    s.acceptAll ps (byteLength before + pos) =
      ((ofList line).acceptAll ps pos).map (byteLength before + ·) := by
  induction ps generalizing pos with
  | nil => rfl
  | cons p ps ih =>
    obtain ⟨hp, hps⟩ := List.forall_mem_cons.mp hps
    rw [acceptAll_cons, acceptAll_cons, h.accept_of_le hp hpos, Option.bind_map, Option.map_bind]
    apply Option.bind_congr
    intro mid hmid
    exact ih hps (accept_bounds hmid).2

theorem slice_of_le {start stop : Nat} (hstop : stop ≤ (ofList line).size) :
    s.slice (byteLength before + start) (byteLength before + stop) =
      (ofList line).slice start stop := by
  have hcut : (s.cells.extract (byteLength before + start) (byteLength before + stop)).toList =
      ((ofList line).cells.extract start stop).toList := by
    have hlen : stop ≤ (ofList line).cells.toList.length := hstop
    rw [Array.toList_extract, Array.toList_extract, h.cells_toList]
    apply List.ext_getElem?
    intro j
    simp only [List.extract_eq_take_drop, List.getElem?_take, List.getElem?_drop,
      List.getElem?_append, length_layout]
    grind
  rw [slice, slice, hcut]

end HasLine

theorem mem_of_mem_slice {s : Subject} {start stop : Nat} {c : Char} (hc : c ∈ s.slice start stop) :
    c ∈ s.chars := by
  rw [slice, List.reduceOption_mem_iff, Array.toList_extract, List.extract_eq_take_drop,
    s.cells_eq] at hc
  exact mem_layout_iff.mp (List.mem_of_mem_drop (List.mem_of_mem_take hc))

theorem linesFrom_last {cs : List Char} (h : '\n' ∉ cs) (start : Nat) :
    linesFrom start (cs.splitOn '\n') = [⟨start, cs⟩] := by
  rw [List.splitOn_eq_singleton h]
  rfl

theorem linesFrom_cons {cs : List Char} (h : '\n' ∉ cs) (start : Nat) (rest : List Char) :
    linesFrom start ((cs ++ '\n' :: rest).splitOn '\n') =
      ⟨start, cs⟩ :: linesFrom (start + byteLength cs + 1) (rest.splitOn '\n') := by
  rw [List.splitOn_append_cons_self_of_not_mem h]
  rfl

theorem line_induction {motive : List Char → Prop} (last : ∀ cs, '\n' ∉ cs → motive cs)
    (line : ∀ cs rest, '\n' ∉ cs → motive rest → motive (cs ++ '\n' :: rest)) (text : List Char) :
    motive text := by
  induction hn : text.length using Nat.strongRecOn generalizing text with
  | ind n ih =>
    by_cases h : '\n' ∈ text
    · obtain ⟨cs, rest, rfl, hcs⟩ := List.eq_append_cons_of_mem h
      apply line cs rest hcs
      apply ih rest.length _ rest rfl
      simp only [List.length_append, List.length_cons] at hn
      omega
    · exact last text h

theorem exists_hasLine {s : Subject} {text before : List Char} (hchars : s.chars = before ++ text)
    (hopens : ∀ c, before.getLast? = some c → c = '\n') {line : Line}
    (hline : line ∈ linesFrom (byteLength before) (text.splitOn '\n')) :
    ∃ before after, s.HasLine before line.chars after ∧ byteLength before = line.start := by
  induction text using line_induction generalizing before with
  | last cs hcs =>
    rw [linesFrom_last hcs, List.mem_singleton] at hline
    subst hline
    refine ⟨before, [], ⟨?_, hopens _, ?_, hcs⟩, rfl⟩
    · rw [hchars, List.append_nil]
    · rintro c ⟨⟩
  | line cs rest hcs ih =>
    rw [linesFrom_cons hcs, List.mem_cons] at hline
    cases hline with
    | inl hline =>
      subst hline
      refine ⟨before, '\n' :: rest, ⟨hchars, hopens _, ?_, hcs⟩, rfl⟩
      rintro c ⟨⟩
      rfl
    | inr hline =>
      have hstart : byteLength before + byteLength cs + 1 = byteLength (before ++ cs ++ ['\n']) := by
        rw [byteLength_append, byteLength_append]
        rfl
      rw [hstart] at hline
      apply ih _ _ hline
      · rw [hchars]
        simp
      · intro c hc
        rw [List.getLast?_concat] at hc
        exact (Option.some.inj hc).symm

theorem exists_hasLine_of_mem_lines {s : Subject} {line : Line} (h : line ∈ s.lines) :
    ∃ before after, s.HasLine before line.chars after ∧ byteLength before = line.start := by
  apply exists_hasLine (List.nil_append s.chars).symm _ h
  rintro c ⟨⟩

end Subject

end PosixRegex
