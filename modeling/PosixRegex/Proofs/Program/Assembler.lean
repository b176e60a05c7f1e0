import PosixRegex.Proofs.Program.Draft

/-!
Programs written in one pass. An assembler appends the instructions of one token after the other,
and goes back to places it has noted where a later token changes what has been written: a run that
is extended or split, the markers of a repeated group, the head of an alternative that turns out to
be one. An access to a place outside of the instructions or of the groups fails.
-/

namespace PosixRegex

/-- What a quantifier would apply to, with the place of its last instruction. -/
inductive OperandAt
  | nothing
  | assertion
  | plain (pc : Nat)
  | repeated (pc : Nat)

/-- Where an open scope stands. -/
structure Frame where
  group : Nat
  start : Nat
  head? : Option Nat

structure Assembler where
  insts : List Inst
  /-- The markers of each group. The second one is missing while the group is open. -/
  groups : List (Nat × Option Nat)
  frame : Frame
  outer : List Frame
  operand : OperandAt

def change? {α : Type} (xs : List α) (i : Nat) (f : α → α) : Option (List α) :=
  if i < xs.length then some (xs.modify i f) else none

def insert? {α : Type} (xs : List α) (i : Nat) (x : α) : Option (List α) :=
  if i ≤ xs.length then some (xs.insertIdx i x) else none

theorem change?_append {α : Type} {xs ys : List α} {x : α} {i : Nat} (hi : i = xs.length)
    (f : α → α) : change? (xs ++ x :: ys) i f = some (xs ++ f x :: ys) := by
  have hmodify : (xs ++ x :: ys).modify xs.length f = xs ++ f x :: ys := by
    clear hi
    induction xs with
    | nil => rfl
    | cons z xs ih => exact congrArg (z :: ·) ih
  rw [change?, hi, hmodify, if_pos (by simp)]

theorem insert?_append {α : Type} {xs ys : List α} {i : Nat} (hi : i = xs.length) (x : α) :
    insert? (xs ++ ys) i x = some (xs ++ x :: ys) := by
  have hinsert : (xs ++ ys).insertIdx xs.length x = xs ++ x :: ys := by
    clear hi
    induction xs with
    | nil => rfl
    | cons z xs ih => exact congrArg (z :: ·) ih
  rw [insert?, hi, hinsert, if_pos (by simp)]

namespace Consumer

def ofRun : List Char → Consumer
  | [c] => literal c
  | cs => text cs

def ofPairs : List (Char × Char) → Consumer
  | [(a, b)] => literalFold a b
  | ps => textFold ps

def extend? (t : Target) (c : Char) : Consumer → Option Consumer
  | literal a => if t.options.ignoreCase then none else some (text [a, c])
  | literalFold a b => if t.options.ignoreCase then some (textFold [(a, b), t.pair c]) else none
  | text cs => if t.options.ignoreCase then none else some (text (cs ++ [c]))
  | textFold ps => if t.options.ignoreCase then some (textFold (ps ++ [t.pair c])) else none
  | _ => none

def splitLast? (what : Consumer) : Option (Consumer × Consumer) :=
  if what.literalLength?.any (1 < ·) then
    match what with
    | text cs => cs.getLast?.map fun c => (ofRun cs.dropLast, literal c)
    | textFold ps => ps.getLast?.map fun (a, b) => (ofPairs ps.dropLast, literalFold a b)
    | _ => none
  else none

end Consumer

namespace Assembler

def start : Assembler := ⟨[], [(0, none)], ⟨0, 0, none⟩, [], .nothing⟩

def append (i : Inst) (a : Assembler) : Assembler := { a with insts := a.insts ++ [i] }

def consume (what : Consumer) (a : Assembler) : Assembler :=
  { a.append (.ofAtom (.consume what)) with operand := .plain a.insts.length }

def assert (what : Assertion) (a : Assembler) : Assembler :=
  { a.append (.ofAtom (.assert what)) with operand := .assertion }

/-- The run that ends at `pc` with one more character, if the instruction there is a run that has
room for it. -/
def extend? (t : Target) (c : Char) (pc : Nat) (a : Assembler) : Option (Option Consumer) := do
  let i ← a.insts[pc]?
  match i.atom with
  | .consume what =>
    if i.times.isOnce ∧ what.literalLength?.any (· < t.run) then return what.extend? t c
    else return none
  | _ => return none

/-- Only the last instruction is extended. -/
def char (t : Target) (c : Char) (a : Assembler) : Option Assembler :=
  match a.operand with
  | .plain pc => do
    if pc + 1 = a.insts.length then
      match ← a.extend? t c pc with
      | some what =>
        return { a with insts := ← change? a.insts pc ({ · with atom := .consume what }) }
      | none => return a.consume (t.literal [c])
    else return a.consume (t.literal [c])
  | _ => some (a.consume (t.literal [c]))

/-- Set the repetition of the instruction at `pc`. The end of a group passes it on to the start. -/
def setTimes (times : Repetition) (pc : Nat) (a : Assembler) : Option Assembler := do
  let i ← a.insts[pc]?
  let insts ← change? a.insts pc ({ · with times })
  match i.atom with
  | .leave g =>
    let (start, _) ← a.groups[g]?
    return { a with insts := ← change? insts start ({ · with times }), operand := .repeated pc }
  | _ => return { a with insts, operand := .repeated pc }

/-- Split the run at `pc` in front of its last character, and find the place of the latter. -/
def split (pc : Nat) (a : Assembler) : Option (Assembler × Nat) := do
  let i ← a.insts[pc]?
  match i.atom with
  | .consume what =>
    match what.splitLast? with
    | some (before, last) =>
      let insts ← change? a.insts pc ({ · with atom := .consume before })
      return ({ a with insts := insts ++ [.ofAtom (.consume last)] }, insts.length)
    | none => return (a, pc)
  | _ => return (a, pc)

def quantify (times : Repetition) (a : Assembler) : Option Assembler :=
  match a.operand with
  | .nothing | .assertion => none
  | .plain pc => do
    let (a, pc) ← a.split pc
    a.setTimes times pc
  | .repeated pc => do
    let i ← a.insts[pc]?
    a.setTimes (i.times.stack times) pc

def openGroup (a : Assembler) : Assembler :=
  let g := a.groups.length
  { a.append (.ofAtom (.enter g)) with
    groups := a.groups ++ [(a.insts.length, none)]
    frame := ⟨g, a.insts.length + 1, none⟩
    outer := a.frame :: a.outer
    operand := .nothing }

def link (head next : Nat) (a : Assembler) : Option Assembler := do
  return { a with insts := ← change? a.insts head ({ · with atom := .branch (next - head) }) }

def endAlternatives (a : Assembler) : Option Assembler :=
  match a.frame.head? with
  | some head => (a.append (.ofAtom (.branch 0))).link head a.insts.length
  | none => some a

def closeAt (pc : Nat) (markers : Nat × Option Nat) : Nat × Option Nat := (markers.1, some pc)

def closeGroup (a : Assembler) : Option Assembler := do
  let frame :: outer := a.outer | none
  let g := a.frame.group
  let a ← a.endAlternatives
  let pc := a.insts.length
  return { a.append (.ofAtom (.leave g)) with
    groups := ← change? a.groups g (closeAt pc)
    frame
    outer
    operand := .plain pc }

def moveOn (pc : Nat) : Nat × Option Nat → Nat × Option Nat
  | (start, stop?) =>
    (if pc ≤ start then start + 1 else start, stop?.map fun k => if pc ≤ k then k + 1 else k)

/-- Put an instruction in front of the one at `pc`. Group zero has no markers. -/
def insert (pc : Nat) (i : Inst) (a : Assembler) : Option Assembler := do
  return { a with
    insts := ← insert? a.insts pc i
    groups := a.groups.take 1 ++ (a.groups.drop 1).map (moveOn pc) }

/-- The head of the current alternative, which the first one of a scope does not have yet. -/
def head (a : Assembler) : Option (Nat × Assembler) :=
  match a.frame.head? with
  | some head => some (head, a)
  | none => (a.insert a.frame.start (.ofAtom (.branch 0))).map (a.frame.start, ·)

def bar (a : Assembler) : Option Assembler := do
  let (head, a) ← a.head
  let a := a.append (.ofAtom (.join a.frame.group))
  let next := a.insts.length
  let a ← (a.append (.ofAtom (.branch 0))).link head next
  return { a with
    frame := { a.frame with start := next + 1, head? := some next }
    operand := .nothing }

/-- Take a token that the reader has accepted. A bracket expression is written when it has been
read. -/
def step (t : Target) (a : Assembler) : Token → Option Assembler
  | .char c => a.char t c
  | .any => some (a.consume (t.consumer .any))
  | .bracket => some a
  | .backRef g => some (a.consume (t.consumer (.backRef g)))
  | .word edge => some (a.assert (.word edge))
  | .star =>
    match t.options.dialect, a.operand with
    | .basic, .nothing | .basic, .assertion => a.char t '*'
    | _, _ => a.quantify .star
  | .caret =>
    match t.options.dialect, a.operand with
    | .extended, _ | .basic, .nothing => some (a.assert .lineStart)
    | .basic, _ => a.char t '^'
  | .dollar => some (a.assert .lineEnd)
  | .quantifier times => a.quantify times
  | .openGroup => some a.openGroup
  | .closeGroup => a.closeGroup
  | .bar => a.bar

/-- The span of a group, which is empty as long as the group is open. -/
def span (markers : Nat × Option Nat) : GroupSpan := ⟨markers.1, markers.2.getD markers.1⟩

/-- The instructions and the spans of the groups in the end. -/
def finish (a : Assembler) : Option (List Inst × List GroupSpan) := do
  let a ← a.endAlternatives
  let pc := a.insts.length
  let groups ← change? a.groups 0 fun _ => (0, some pc)
  return (a.insts ++ [.ofAtom .accept], groups.map span)

end Assembler

namespace Consumer

variable {t : Target}

theorem extend?_literal (c : Char) {cs : List Char} (hcs : cs ≠ []) :
    (t.literal cs).extend? t c = some (t.literal (cs ++ [c])) := by
  obtain ⟨x, xs, rfl⟩ := List.exists_cons_of_ne_nil hcs
  cases ho : t.options.ignoreCase <;> cases xs <;>
    simp [Target.literal, ho, extend?, Target.pair]

theorem literalLength?_literal (t : Target) {cs : List Char} (hcs : cs ≠ []) :
    (t.literal cs).literalLength? = some cs.length := by
  obtain ⟨x, xs, rfl⟩ := List.exists_cons_of_ne_nil hcs
  cases ho : t.options.ignoreCase <;> cases xs <;>
    simp [Target.literal, ho, literalLength?]

theorem literal_eq (t : Target) (cs : List Char) :
    t.literal cs = if t.options.ignoreCase then ofPairs (cs.map t.pair) else ofRun cs := by
  rcases cs with _ | ⟨x, _ | ⟨y, cs⟩⟩ <;> rfl

theorem splitLast?_literal (c : Char) {cs : List Char} (hcs : cs ≠ []) :
    (t.literal (cs ++ [c])).splitLast? = some (t.literal cs, t.literal [c]) := by
  have hlength : ((t.literal (cs ++ [c])).literalLength?.any (1 < ·)) = true := by
    rw [literalLength?_literal t (by simp)]
    simpa using List.length_pos_iff.mpr hcs
  have htext : t.literal (cs ++ [c]) =
      if t.options.ignoreCase then textFold (cs.map t.pair ++ [t.pair c]) else text (cs ++ [c]) := by
    obtain ⟨x, xs, rfl⟩ := List.exists_cons_of_ne_nil hcs
    rw [← List.map_singleton, ← List.map_append]
    cases xs <;> rfl
  unfold splitLast?
  rw [if_pos hlength, htext, literal_eq t cs, literal_eq t [c]]
  cases t.options.ignoreCase <;> simp [ofRun, ofPairs]

end Consumer

namespace Assembler

variable {t : Target} {a : Assembler} {xs : List Inst} {i : Inst} {cs : List Char} {c : Char}

theorem extend?_literal (hinsts : a.insts = xs ++ [.ofAtom (.consume (t.literal cs))])
    (hcs : cs ≠ []) : a.extend? t c xs.length =
      some (if cs.length < t.run then some (t.literal (cs ++ [c])) else none) := by
  simp [extend?, hinsts, Inst.ofAtom, Repetition.isOnce, Consumer.literalLength?_literal t hcs,
    Consumer.extend?_literal c hcs]
  split <;> rfl

theorem extend?_other (hinsts : a.insts = xs ++ [i]) (hi : i.atom.literalLength? = none) :
    a.extend? t c xs.length = some none := by
  obtain ⟨atom, times⟩ := i
  cases atom with
  | consume what =>
    have hwhat : what.literalLength? = none := hi
    simp [extend?, hinsts, hwhat]
  | _ => simp [extend?, hinsts]

theorem char_of_extend?_none (hinsts : a.insts = xs ++ [i]) (hop : a.operand = .plain xs.length)
    (hextend : a.extend? t c xs.length = some none) :
    a.char t c = some (a.consume (t.literal [c])) := by
  simp [char, hop, hinsts, hextend]

theorem char_of_extend?_some {what : Consumer} (hinsts : a.insts = xs ++ [i])
    (hop : a.operand = .plain xs.length) (hextend : a.extend? t c xs.length = some (some what)) :
    a.char t c = some { a with insts := xs ++ [{ i with atom := .consume what }] } := by
  simp [char, hop, hinsts, hextend, change?_append rfl]

theorem split_of_run (hinsts : a.insts = xs ++ [.ofAtom (.consume (t.literal (cs ++ [c])))])
    (hcs : cs ≠ []) : a.split xs.length =
      some ({ a with insts := xs ++ [.ofAtom (.consume (t.literal cs))] ++
        [.ofAtom (.consume (t.literal [c]))] }, xs.length + 1) := by
  simp [split, hinsts, Inst.ofAtom, Consumer.splitLast?_literal c hcs, change?_append rfl]

theorem split_of_length_le (hinsts : a.insts = xs ++ [i])
    (hi : i.atom.literalLength?.any (1 < ·) = false) :
    a.split xs.length = some (a, xs.length) := by
  obtain ⟨atom, times⟩ := i
  cases atom with
  | consume what =>
    have hwhat : what.splitLast? = none := if_neg (Bool.eq_false_iff.mp hi)
    simp [split, hinsts, hwhat]
  | _ => simp [split, hinsts]

theorem setTimes_consume {what : Consumer} {old : Repetition} (new : Repetition)
    (hinsts : a.insts = xs ++ [⟨.consume what, old⟩]) : a.setTimes new xs.length =
      some { a with insts := xs ++ [⟨.consume what, new⟩], operand := .repeated xs.length } := by
  simp [setTimes, hinsts, change?_append rfl]

theorem setTimes_leave {g : Nat} {ys : List Inst} {old : Repetition} (new : Repetition)
    (hinsts : a.insts = xs ++ ⟨.enter g, old⟩ :: ys ++ [⟨.leave g, old⟩])
    (hg : a.groups[g]?.map Prod.fst = some xs.length) :
    a.setTimes new (xs ++ ⟨.enter g, old⟩ :: ys).length = some { a with
      insts := xs ++ ⟨.enter g, new⟩ :: ys ++ [⟨.leave g, new⟩]
      operand := .repeated (xs ++ ⟨.enter g, old⟩ :: ys).length } := by
  obtain ⟨⟨start, stop?⟩, hget, rfl⟩ := Option.map_eq_some_iff.mp hg
  have hlast : a.insts[(xs ++ ⟨.enter g, old⟩ :: ys).length]? = some ⟨.leave g, old⟩ := by
    rw [hinsts, List.getElem?_concat_length]
  have hstop : change? a.insts (xs ++ ⟨.enter g, old⟩ :: ys).length ({ · with times := new }) =
      some (xs ++ ⟨.enter g, old⟩ :: (ys ++ [⟨.leave g, new⟩])) := by
    rw [hinsts, change?_append rfl, List.append_assoc, List.cons_append]
  simp only [setTimes, hlast, hstop, hget, Option.bind_eq_bind, Option.bind_some,
    change?_append rfl]
  simp

theorem link_append {ys : List Inst} (hinsts : a.insts = xs ++ i :: ys) (next : Nat) :
    a.link xs.length next =
      some { a with insts := xs ++ { i with atom := .branch (next - xs.length) } :: ys } := by
  simp [link, hinsts, change?_append rfl]

theorem insert_append {ys : List Inst} (hinsts : a.insts = xs ++ ys) :
    a.insert xs.length i = some { a with
      insts := xs ++ i :: ys
      groups := a.groups.take 1 ++ (a.groups.drop 1).map (moveOn xs.length) } := by
  simp [insert, hinsts, insert?_append rfl]

end Assembler

end PosixRegex
