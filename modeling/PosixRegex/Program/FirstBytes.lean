import PosixRegex.Program

/-!
The bytes that a match can start with. No instruction but the end of a repeated group leads back,
and that one only after text has been consumed, so the first bytes of an instruction depend on
later instructions only. All bytes are admitted where nothing has to be consumed and where the
first character is not known.
-/

namespace PosixRegex

namespace Consumer

def firstBytes : Consumer → ByteSet
  | literal c => .ofLeads [c]
  | literalFold a b => .ofLeads [a, b]
  | text (c :: _) => .ofLeads [c]
  | textFold ((a, b) :: _) => .ofLeads [a, b]
  | narrow s =>
    if s.negated then .full else .ofLeads (s.bytes.toList.map (fun b => Char.ofNat b.toNat))
  | _ => .full

end Consumer

namespace Program

/-- The first bytes at instruction `pc`, from a table of those of all later instructions that
starts with the last one. -/
def firstBytesAt (insts : Array Inst) (groups : Array GroupSpan) (later : Array ByteSet)
    (pc : Nat) (i : Inst) : ByteSet :=
  let bytesOf (target : Nat) : ByteSet :=
    if target < insts.size then (later[insts.size - 1 - target]?).getD .full else .full
  match i.atom with
  | .leave _ | .branch 0 => bytesOf (pc + 1)
  | .branch next =>
    if (insts[pc + next]?).any (·.atom.isChainEnd) then bytesOf (pc + 1)
    else (bytesOf (pc + 1)).union (bytesOf (pc + next))
  | .join g =>
    match groups[g]? with
    | some span => bytesOf span.stop
    | none => .full
  | .enter _ => if i.times.min = 0 then .full else bytesOf (pc + 1)
  | .consume what => if i.times.min = 0 then .full else what.firstBytes
  | .assert _ | .accept => .full

def firstBytesTable (insts : Array Inst) (groups : Array GroupSpan) : Nat → Array ByteSet
  | 0 => #[]
  | count + 1 =>
    let later := firstBytesTable insts groups count
    match insts[insts.size - 1 - count]? with
    | some i => later.push (firstBytesAt insts groups later (insts.size - 1 - count) i)
    | none => later

def computeFirstBytes (insts : Array Inst) (groups : Array GroupSpan) : ByteSet :=
  ((firstBytesTable insts groups insts.size).back?).getD .full

end Program

end PosixRegex
