import PosixRegex.Command.Arguments
import PosixRegex.Diagnostic
import PosixRegex.Text.Json

namespace PosixRegex.Command

structure Surroundings where
  stdin : String
  /-- The text of a file, or why it cannot be read. -/
  readFile : String → Except String String

structure Output where
  /-- Zero for success, one for a pattern that fails to match or, where nothing is matched, to
  compile, and two for all other failures. -/
  code : Nat
  stdout : String := ""
  stderr : String := ""

def lines (ls : List String) : String := String.join (ls.map (· ++ "\n"))

def Invocation.compile (v : Invocation) : Except PatternError Regex :=
  Regex.compile v.options v.locale v.pattern {} v.limits

def Invocation.reject (v : Invocation) (code : Nat) (e : PatternError) : Output :=
  { code, stderr := "\n".intercalate (e.render v.pattern.toList v.colored) }

def Invocation.loadSubject (v : Invocation) (s : Surroundings) : Except String String :=
  match v.subject, v.file with
  | some text, _ => .ok text
  | none, some "-" => .ok s.stdin
  | none, some name => (s.readFile name).mapError (s!"failed to read {name}: " ++ ·)
  | none, none => .error "a subject is required (pass SUBJECT or --file)"

def spanFields (m : Match) (s : Span) : List (String × Json) :=
  [("start", .number s.start), ("end", .number s.stop),
    ("text", .string (m.subject.text s.start s.stop))]

def groupJson (m : Match) : Option Span → Json
  | none => .null
  | some s => .object (spanFields m s)

def matchJson (m : Match) : Json :=
  .object (spanFields m m.span ++
    [("groups", .array ((m.captures.spans.drop 1).map (groupJson m)))])

def report (pattern : String) (ms : List Match) : Json :=
  .object [("pattern", .string pattern), ("matches", .array (ms.map matchJson))]

def Invocation.prepare (v : Invocation) (s : Surroundings) (go : Regex → Subject → Output) :
    Output :=
  match v.compile with
  | .error e => v.reject 2 e
  | .ok r =>
    match v.loadSubject s with
    | .error why => { code := 2, stderr := s!"error: {why}\n" }
    | .ok text => go r (.ofString text)

def runtimeError (e : SearchError) : String := "runtime error: " ++ e.message ++ "\n"

def Invocation.exec (v : Invocation) (r : Regex) (s : Subject) : Output :=
  let found :=
    if v.all then (r.matchesOf s v.flags).mapM id
    else (r.findAt s 0 v.flags).map Option.toList
  match found with
  | .error e => { code := 2, stderr := runtimeError e }
  | .ok ms =>
    { code := if ms.isEmpty then 1 else 0, stdout := (report v.pattern ms).render ++ "\n" }

def spanLine (m : Match) (g : Nat) : Option Span → String
  | none => s!"#{g}  unset"
  | some s =>
    s!"#{g}  {s.start}..{s.stop}  " ++ Text.quoteText (m.subject.slice s.start s.stop)

def Invocation.trace (v : Invocation) (r : Regex) (s : Subject) : Output :=
  let colors : Colors := ⟨v.colored⟩
  let log := lines (r.traceLines s v.flags colors)
  match r.findAt s 0 v.flags with
  | .error e => { code := 2, stdout := log, stderr := runtimeError e }
  | .ok none => { code := 1, stdout := log }
  | .ok (some m) =>
    { code := 0
      stdout := log ++ lines (colors.paint .dim "---" ::
        m.captures.spans.zipIdx.map (fun (span, g) => spanLine m g span)) }

def Invocation.run (v : Invocation) (s : Surroundings) : Output :=
  match v.action with
  | .check =>
    match v.compile with
    | .error e => v.reject 1 e
    | .ok _ => { code := 0 }
  | .dump =>
    match v.compile with
    | .error e => v.reject 1 e
    | .ok r => { code := 0, stdout := lines (r.program.listing ⟨v.colored⟩) }
  | .exec => v.prepare s v.exec
  | .trace => v.prepare s v.trace

def run? (args : List String) (s : Surroundings) : Option Output :=
  (parse? args).map (·.run s)

end PosixRegex.Command
