import PosixRegex.Regex

namespace PosixRegex.Command

inductive Action
  | check
  | dump
  | exec
  | trace
  deriving DecidableEq, Repr

inductive Flag
  | extended
  | ignoreCase
  | newline
  | nosub
  | notbol
  | noteol
  | all
  | compact
  deriving DecidableEq, Repr

inductive Setting
  | file
  | locale
  | color
  | fuel
  | recursionLimit
  deriving DecidableEq, Repr

def Action.names : List (String × Action) :=
  [("check", .check), ("dump", .dump), ("exec", .exec), ("trace", .trace)]

def Flag.longNames : List (String × Flag) :=
  [("extended", .extended), ("ignore-case", .ignoreCase), ("newline", .newline),
    ("nosub", .nosub), ("notbol", .notbol), ("noteol", .noteol), ("all", .all),
    ("compact", .compact)]

def Flag.shortNames : List (Char × Flag) :=
  [('E', .extended), ('i', .ignoreCase), ('n', .newline), ('a', .all)]

def Setting.longNames : List (String × Setting) :=
  [("file", .file), ("locale", .locale), ("color", .color), ("fuel", .fuel),
    ("recursion-limit", .recursionLimit)]

def Setting.shortNames : List (Char × Setting) := [('f', .file)]

structure Sorted where
  flags : List Flag := []
  settings : List (Setting × String) := []
  /-- The arguments that are no options, last one first. -/
  positional : List String := []

namespace Sorted

def addFlag (s : Sorted) (f : Flag) : Option Sorted :=
  if s.flags.contains f then none else some { s with flags := f :: s.flags }

def addSetting (s : Sorted) (k : Setting) (value : String) : Option Sorted :=
  if (s.settings.lookup k).isSome then none
  else some { s with settings := (k, value) :: s.settings }

def addPositional (s : Sorted) (value : String) : Sorted :=
  { s with positional := value :: s.positional }

end Sorted

inductive Reading
  | positional
  /-- All arguments behind `--` are positional. -/
  | separator
  /-- Some flags, and perhaps a setting, which takes the next argument if it has no value. -/
  | options (flags : List Flag) (setting : Option (Setting × Option String))
  | invalid

/-- A word of one-letter options. The rest of the word is the value of a setting. -/
def readShort : List Char → Reading
  | [] => .options [] none
  | c :: cs =>
    match Setting.shortNames.lookup c with
    | some k =>
      .options [] <| some <| (k, ·) <|
        match cs with
        | [] => none
        | '=' :: value | value => some (String.ofList value)
    | none =>
      match Flag.shortNames.lookup c, readShort cs with
      | some f, .options fs setting => .options (f :: fs) setting
      | _, _ => .invalid

def readLong (word : List Char) : Reading :=
  let name := String.ofList (word.takeWhile (· != '='))
  let value := match word.dropWhile (· != '=') with
    | [] => none
    | _ :: cs => some (String.ofList cs)
  match Flag.longNames.lookup name, Setting.longNames.lookup name, value with
  | some f, _, none => .options [f] none
  | none, some k, value => .options [] (some (k, value))
  | _, _, _ => .invalid

/-- A lone hyphen is an ordinary argument. -/
def readArgument (arg : String) : Reading :=
  match arg.toList with
  | ['-', '-'] => .separator
  | '-' :: '-' :: word => readLong word
  | '-' :: c :: word => readShort (c :: word)
  | _ => .positional

def isValue (arg : String) : Bool :=
  match readArgument arg with
  | .positional => true
  | _ => false

def sort : List String → Sorted → Option Sorted
  | [], s => some s
  | arg :: args, s =>
    match readArgument arg with
    | .positional => sort args (s.addPositional arg)
    | .separator => some (args.foldl Sorted.addPositional s)
    | .invalid => none
    | .options flags setting =>
      match flags.foldlM Sorted.addFlag s, setting with
      | none, _ => none
      | some s, none => sort args s
      | some s, some (k, some value) => (s.addSetting k value).bind (sort args)
      | some s, some (k, none) =>
        match args with
        | [] => none
        | value :: args =>
          if isValue value then (s.addSetting k value).bind (sort args) else none

/-- When colours are used. Output does not go to a terminal, so `auto` means never. -/
inductive ColorChoice
  | auto
  | always
  | never
  deriving DecidableEq, Repr

def ColorChoice.names : List (String × ColorChoice) :=
  [("auto", .auto), ("always", .always), ("never", .never)]

def localeNames : List (String × Locale) := [("c", .posix), ("utf8", .unicode)]

/-- A number of 32 bits in decimal digits, which may have a sign. -/
def readNumber? (s : String) : Option Nat :=
  let (negative, digits) := match s.toList with
    | '-' :: ds => (true, ds)
    | '+' :: ds => (false, ds)
    | ds => (false, ds)
  if digits.isEmpty || !digits.all Char.isDigit then none
  else
    let n := digits.foldl (fun n d => n * 10 + (d.toNat - '0'.toNat)) 0
    if n ≤ 0xFFFFFFFF && (n == 0 || !negative) then some n else none

structure Invocation where
  action : Action
  pattern : String
  subject : Option String
  file : Option String
  options : Options
  flags : ExecFlags
  locale : Locale
  limits : SearchLimits
  colored : Bool
  all : Bool

namespace Sorted

def setting? {α : Type} (s : Sorted) (k : Setting) (read : String → Option α) (default : α) :
    Option α :=
  match s.settings.lookup k with
  | none => some default
  | some value => read value

/-- There is one pattern and at most one subject, which excludes a file. -/
def invocation? (s : Sorted) (action : Action) : Option Invocation := do
  let (pattern, subject) ← match s.positional with
    | [pattern] => some (pattern, none)
    | [subject, pattern] => some (pattern, some subject)
    | _ => none
  let file ← s.setting? .file (fun name => if name.isEmpty then none else some (some name)) none
  if subject.isSome && file.isSome then none
  let locale ← s.setting? .locale (localeNames.lookup ·) .posix
  let color ← s.setting? .color (ColorChoice.names.lookup ·) .auto
  let fuel ← s.setting? .fuel readNumber? 1000000
  let recursion ← s.setting? .recursionLimit readNumber? 100000
  return {
    action, pattern, subject, file, locale
    options :=
      { dialect := if s.flags.contains .extended then .extended else .basic
        ignoreCase := s.flags.contains .ignoreCase
        newlineSensitive := s.flags.contains .newline
        noCapture := s.flags.contains .nosub }
    flags := { notBol := s.flags.contains .notbol, notEol := s.flags.contains .noteol }
    limits := { fuel, recursion }
    colored := color = .always
    all := s.flags.contains .all }

end Sorted

def parse? : List String → Option Invocation
  | [] => none
  | name :: args => do
    let action ← Action.names.lookup name
    let sorted ← sort args {}
    sorted.invocation? action

end PosixRegex.Command
