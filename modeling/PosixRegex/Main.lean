import PosixRegex.Command.Run

namespace PosixRegex

def describe : IO.Error → String
  | .noFileOrDirectory _ code _ => s!"No such file or directory (os error {code})"
  | .permissionDenied _ code _ => s!"Permission denied (os error {code})"
  | e => toString e

def loadFile (name : String) : IO (Except String String) :=
  try
    return .ok (← IO.FS.readFile name)
  catch e =>
    return .error (describe e)

def surroundings (args : List String) : IO Command.Surroundings := do
  match (Command.parse? args).bind (·.file) with
  | none => return ⟨"", fun _ => .error ""⟩
  | some "-" => return ⟨← (← IO.getStdin).readToEnd, fun _ => .error ""⟩
  | some name =>
    let text ← loadFile name
    return ⟨"", fun _ => text⟩

end PosixRegex

def main (args : List String) : IO UInt32 := do
  match PosixRegex.Command.run? args (← PosixRegex.surroundings args) with
  | none =>
    IO.eprintln "usage: check|dump|exec|trace [OPTIONS] PATTERN [SUBJECT]"
    return 2
  | some out =>
    IO.print out.stdout
    IO.eprint out.stderr
    return out.code.toUInt32
