import PosixRegex.Main
import PosixRegex.Program.Defect
import PosixRegex.Proofs.Caseless
import PosixRegex.Proofs.Line
import PosixRegex.Proofs.Locale
import PosixRegex.Proofs.Matches
import PosixRegex.Proofs.Pattern.Alternation
import PosixRegex.Proofs.Pattern.Availability
import PosixRegex.Proofs.Pattern.BracketSet
import PosixRegex.Proofs.Pattern.BracketText
import PosixRegex.Proofs.Pattern.Context
import PosixRegex.Proofs.Pattern.Derivation
import PosixRegex.Proofs.Pattern.Dialects
import PosixRegex.Proofs.Pattern.Interval
import PosixRegex.Proofs.Pattern.Leaves
import PosixRegex.Proofs.Pattern.Limits
import PosixRegex.Proofs.Pattern.Lookahead
import PosixRegex.Proofs.Pattern.Membership
import PosixRegex.Proofs.Pattern.Nesting
import PosixRegex.Proofs.Pattern.Nullable
import PosixRegex.Proofs.Pattern.Part
import PosixRegex.Proofs.Pattern.Passage
import PosixRegex.Proofs.Pattern.Printing
import PosixRegex.Proofs.Pattern.Proper
import PosixRegex.Proofs.Pattern.References
import PosixRegex.Proofs.Pattern.RegularLanguage
import PosixRegex.Proofs.Pattern.Repetitions
import PosixRegex.Proofs.Pattern.RoundTrip
import PosixRegex.Proofs.Pattern.Scopes
import PosixRegex.Proofs.Pattern.Shape
import PosixRegex.Proofs.Pattern.Slices
import PosixRegex.Proofs.Program.Assembler
import PosixRegex.Proofs.Program.Assembly
import PosixRegex.Proofs.Program.Caseless
import PosixRegex.Proofs.Program.Coalesced
import PosixRegex.Proofs.Program.Connected
import PosixRegex.Proofs.Program.Defect
import PosixRegex.Proofs.Program.Dialects
import PosixRegex.Proofs.Program.Draft
import PosixRegex.Proofs.Program.FirstBytes
import PosixRegex.Proofs.Program.Layout
import PosixRegex.Proofs.Program.Newline
import PosixRegex.Proofs.Program.OnePass
import PosixRegex.Proofs.Program.Placement
import PosixRegex.Proofs.Program.Size
import PosixRegex.Proofs.Program.Stretch
import PosixRegex.Proofs.Program.Surroundings
import PosixRegex.Proofs.Program.WellFormed
import PosixRegex.Proofs.RangeSet
import PosixRegex.Proofs.Repetition
import PosixRegex.Proofs.Search.Admission
import PosixRegex.Proofs.Search.Agreement
import PosixRegex.Proofs.Search.Alternation
import PosixRegex.Proofs.Search.Ascent
import PosixRegex.Proofs.Search.Backoff
import PosixRegex.Proofs.Search.Captures
import PosixRegex.Proofs.Search.Caseless
import PosixRegex.Proofs.Search.Checkpoints
import PosixRegex.Proofs.Search.Coalescing
import PosixRegex.Proofs.Search.Completeness
import PosixRegex.Proofs.Search.Consume
import PosixRegex.Proofs.Search.Control
import PosixRegex.Proofs.Search.Counts
import PosixRegex.Proofs.Search.Coverage
import PosixRegex.Proofs.Search.Enclosing
import PosixRegex.Proofs.Search.Exploration
import PosixRegex.Proofs.Search.FirstMatch
import PosixRegex.Proofs.Search.Folding
import PosixRegex.Proofs.Search.Fuel
import PosixRegex.Proofs.Search.Iterations
import PosixRegex.Proofs.Search.LeftmostLongest
import PosixRegex.Proofs.Search.Limits
import PosixRegex.Proofs.Search.Lines
import PosixRegex.Proofs.Search.Locales
import PosixRegex.Proofs.Search.Meaning
import PosixRegex.Proofs.Search.Mirror
import PosixRegex.Proofs.Search.Nesting
import PosixRegex.Proofs.Search.Opening
import PosixRegex.Proofs.Search.Paths
import PosixRegex.Proofs.Search.Quoted
import PosixRegex.Proofs.Search.Recursion
import PosixRegex.Proofs.Search.Refinement
import PosixRegex.Proofs.Search.Safety
import PosixRegex.Proofs.Search.Scan
import PosixRegex.Proofs.Search.Seek
import PosixRegex.Proofs.Search.Session
import PosixRegex.Proofs.Search.Skipping
import PosixRegex.Proofs.Search.Soundness
import PosixRegex.Proofs.Search.Starts
import PosixRegex.Proofs.Search.States
import PosixRegex.Proofs.Search.Termination
import PosixRegex.Proofs.Search.Unrolling
import PosixRegex.Proofs.Search.Walk
import PosixRegex.Proofs.Search.Width
import PosixRegex.Proofs.Search.Wrapping
import PosixRegex.Proofs.Search.Written
import PosixRegex.Proofs.Settling
import PosixRegex.Proofs.Subject
import PosixRegex.Proofs.WordSet
