import PosixRegex.Proofs.Pattern.Context

namespace PosixRegex

namespace Pattern

def either (p q : Pattern) : Pattern := p.append (bar q)

theorem groupCount_either (p q : Pattern) :
    (p.either q).groupCount = p.groupCount + q.groupCount :=
  groupCount_append p (bar q)

theorem read_either {limits : CompileLimits} {left right : List Char} {p q both : Pattern}
    (hp : Pattern.read .extended limits left = .ok p)
    (hq : Pattern.read .extended limits right = .ok q)
    (hboth : Pattern.read .extended limits (left ++ '|' :: right) = .ok both) :
    both = p.either q := by
  have hs : Delimited .extended ('|' :: right) := Or.inr ⟨'|', right, Or.inl rfl, rfl⟩
  obtain ⟨r, hr, hbar⟩ := (reads_of_read hboth).pattern (Or.inl rfl) hs hp
  have hwritten : Token.Written .bar .extended ['|'] := Token.written_of_eq fun _ => rfl
  obtain ⟨r₁, _, hstep, hrest⟩ := Reader.Reads.step .bar hwritten (by decide) hbar
  cases hstep
  rw [hrest.last hq]
  change r.scope.items.reverseOnto (bar q) = _
  rw [hr.items]
  exact reverse_reverseOnto_eq_append p (bar q)

end Pattern

end PosixRegex
