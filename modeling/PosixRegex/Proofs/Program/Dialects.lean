import PosixRegex.Proofs.Pattern.Dialects
import PosixRegex.Proofs.Program.Placement

namespace PosixRegex

theorem Pattern.branches_dialect (t : Target) (d : Dialect) (next : Nat) (pending : List Char)
    (p : Pattern) :
    p.branches { t with options := { t.options with dialect := d } } next pending =
      p.branches t next pending := by
  fun_induction Pattern.branches t next pending p with
  | case1 => rfl
  | case2 next pending c rest hlt ih =>
    rw [branches, if_pos hlt]
    exact ih
  | case3 next pending c rest hlt ih =>
    rw [branches, if_neg hlt, ih]
    rfl
  | case4 next pending what times rest hne ih =>
    rw [branches.eq_3 _ _ _ _ _ _ hne, ih]
    rfl
  | case5 next pending what rest ih =>
    rw [branches, ih]
    rfl
  | case6 next pending body times rest inner ihbody ih =>
    rw [branches, ihbody, ih]
    rfl
  | case7 next pending rest ih =>
    rw [branches, ih]
    rfl

namespace Program

theorem ofPattern_dialect (o : Options) (d : Dialect) (l : Locale) (run : Nat) (p : Pattern) :
    ofPattern ⟨{ o with dialect := d }, l, run⟩ p = ofPattern ⟨o, l, run⟩ p := by
  have hcode : p.code ⟨{ o with dialect := d }, l, run⟩ = p.code ⟨o, l, run⟩ := by
    unfold Pattern.code
    rw [← Pattern.branches_dialect ⟨o, l, run⟩ d]
  unfold ofPattern
  rw [hcode]

/-- The texts of an expression in both dialects compile to the same program, or they are rejected for
the same fault. -/
theorem compile_dialects (o : Options) (l : Locale) (limits : CompileLimits) (e : Expression) :
    (compile { o with dialect := .basic } l limits (e.print .basic)).mapError (·.fault) =
      (compile { o with dialect := .extended } l limits (e.print .extended)).mapError
        (·.fault) := by
  -- Only the dialect of the options is lost on the way to the program.
  have hcompile : ∀ d text, (compile { o with dialect := d } l limits text).mapError (·.fault) =
      ((Pattern.read d limits text).mapError (·.fault)).map (ofPattern ⟨o, l, limits.run⟩) := by
    intro d text
    unfold compile
    cases Pattern.read d limits text with
    | error e => rfl
    | ok p => exact congrArg Except.ok (ofPattern_dialect o d l limits.run p)
  rw [hcompile, hcompile, Pattern.read_print_dialects]

example :
    Expression.print .basic ⟨true, .group false (.atom (.char 'a') none (.bar false false
        (.atom (.bracket ⟨['b', '-', 'd', ']'], rfl, rfl⟩) none (.done false))))
      (some .plus) (.done true)⟩ =
    ['^', '\\', '(', 'a', '\\', '|', '[', 'b', '-', 'd', ']', '\\', ')', '\\', '+', '$'] :=
  rfl

end Program

end PosixRegex
