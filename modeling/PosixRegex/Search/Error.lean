namespace PosixRegex

inductive Malformation
  | outOfProgram (pc : Nat)
  | unknownGroup (group : Nat)
  | missingHead (pc : Nat)
  deriving DecidableEq, Repr

def Malformation.text : Malformation → String
  | outOfProgram pc => s!"jump to {pc} leaves the program"
  | unknownGroup g => s!"unknown group {g}"
  | missingHead pc => s!"alternative at {pc} has no head marker"

inductive SearchError
  | fuelExhausted (limit : Nat)
  | recursionLimit (limit : Nat)
  | malformed (why : Malformation)
  deriving DecidableEq, Repr

def SearchError.message : SearchError → String
  | fuelExhausted limit => s!"match execution limit of {limit} steps exceeded"
  | recursionLimit limit => s!"match recursion limit of {limit} exceeded"
  | malformed why => "malformed program: " ++ why.text

end PosixRegex
