import PosixRegex.Proofs.Pattern.Passage

namespace PosixRegex

def BlamesFrom {α : Type} (start : Nat) (x : Except PatternError α) : Prop :=
  ∀ offset, x = .error ⟨offset, .invalidBackReference⟩ → start ≤ offset

namespace BlamesFrom

variable {α β : Type} {start : Nat}

theorem ok (a : α) : BlamesFrom start (.ok a) := fun _ h => nomatch h

theorem other {e : PatternError} (h : e.fault ≠ .invalidBackReference) :
    BlamesFrom start (.error e : Except PatternError α) := by
  rintro offset heq
  cases heq
  exact absurd rfl h

theorem here {offset : Nat} (h : start ≤ offset) (x : Except PatternFault α) :
    BlamesFrom start (x.mapError (⟨offset, ·⟩)) := by
  cases x with
  | ok a => exact ok a
  | error fault =>
    rintro offset' heq
    cases heq
    exact h

theorem bind {x : Except PatternError α} {f : α → Except PatternError β} (hx : BlamesFrom start x)
    (hf : ∀ a, x = .ok a → BlamesFrom start (f a)) : BlamesFrom start (x >>= f) := by
  cases x with
  | ok a => exact hf a rfl
  | error e =>
    rintro offset heq
    cases heq
    exact hx offset rfl

theorem mono {start' : Nat} {x : Except PatternError α} (h : BlamesFrom start x)
    (hle : start' ≤ start) : BlamesFrom start' x :=
  fun offset heq => Nat.le_trans hle (h offset heq)

end BlamesFrom

namespace Bracket

variable {start opened : Nat} {c : Cursor}

theorem blamesFrom_readBody (k : Char) : BlamesFrom start (readBody k c) := by
  unfold readBody
  split
  · exact .other nofun
  · exact .ok _

theorem blamesFrom_symbol (offset : Nat) (body : List Char) :
    BlamesFrom start (symbol offset body) := by
  unfold symbol
  split
  · exact .other nofun
  · exact .ok _

theorem blamesFrom_readChar : BlamesFrom start (readChar opened c) := by
  unfold readChar
  split
  · exact .other nofun
  · exact .ok _

theorem blamesFrom_readElement : BlamesFrom start (readElement opened c) := by
  unfold readElement
  split
  · exact blamesFrom_readChar.bind fun _ _ => .ok _
  · refine (blamesFrom_readBody _).bind fun ⟨body, after⟩ _ => ?_
    dsimp only
    split
    · split
      · exact .other nofun
      · exact .ok _
    · exact (blamesFrom_symbol _ _).bind fun _ _ => .ok _

theorem blamesFrom_readRangeEnd : BlamesFrom start (readRangeEnd opened c) := by
  unfold readRangeEnd
  split
  · exact blamesFrom_readChar
  · exact (blamesFrom_readBody _).bind fun _ _ => (blamesFrom_symbol _ _).bind fun _ _ => .ok _
  · exact .other nofun

theorem blamesFrom_readItem : BlamesFrom start (readItem opened c) := by
  unfold readItem
  refine blamesFrom_readElement.bind fun ⟨e, after⟩ _ => ?_
  dsimp only
  split
  · exact .ok _
  · exact .ok _
  · split
    · exact .ok _
    · refine blamesFrom_readRangeEnd.bind fun ⟨hi, after⟩ _ => ?_
      dsimp only
      split
      · exact .other nofun
      · exact .ok _

theorem blamesFrom_readItems {steps : Nat} {first : Bool} :
    BlamesFrom start (readItems opened steps first c) := by
  induction steps generalizing first c with
  | zero => exact .other nofun
  | succ steps ih =>
    unfold readItems
    split
    · exact .other nofun
    · split
      · exact .ok _
      · exact blamesFrom_readItem.bind fun _ _ => ih.bind fun _ _ => .ok _

theorem blamesFrom_read : BlamesFrom start (read opened c) :=
  blamesFrom_readItems.bind fun _ _ => .ok _

end Bracket

namespace Reader

variable {d : Dialect} {limits : CompileLimits} {r r' : Reader} {c after : Cursor}

theorem blamesFrom_readToken (x : Char) (offset : Nat) :
    BlamesFrom offset (r.readToken d limits x offset c) := by
  unfold readToken
  refine (BlamesFrom.here (Nat.le_refl offset) _).bind fun found _ => ?_
  refine (BlamesFrom.here (Nat.le_refl offset) _).bind fun r₁ _ => ?_
  split
  · exact Bracket.blamesFrom_read.bind fun _ _ => .ok _
  · exact .ok _

theorem offset_le_of_readToken {x : Char} {offset : Nat}
    (h : r.readToken d limits x offset c = .ok (r', after)) : c.offset ≤ after.offset := by
  unfold readToken at h
  obtain ⟨⟨token, mid⟩, htoken, h⟩ := exists_of_bind_eq_ok h
  obtain ⟨r₁, -, h⟩ := exists_of_bind_eq_ok h
  obtain ⟨xs, hmid, -⟩ := Token.exists_yields_of_read (ok_of_mapError htoken)
  split at h
  · obtain ⟨⟨b, last⟩, hb, h⟩ := exists_of_bind_eq_ok h
    cases h
    exact Nat.le_trans hmid.offset_le (Bracket.yields_read hb).offset_le
  · cases h
    exact hmid.offset_le

theorem blamesFrom_finish {start offset : Nat} : BlamesFrom start (r.finish limits offset) := by
  unfold finish
  split
  · exact .other nofun
  · split
    · exact .other nofun
    · exact .ok _

theorem blamesFrom_readAll {steps : Nat} : BlamesFrom c.offset (readAll d limits steps r c) := by
  induction steps generalizing r c with
  | zero => exact blamesFrom_finish
  | succ steps ih =>
    unfold readAll
    split
    · exact blamesFrom_finish
    · rename_i x mid hx
      refine (blamesFrom_readToken x c.offset).bind fun ⟨r', after⟩ hr => ?_
      dsimp only
      split
      · exact .other nofun
      · have hle := (Cursor.next?_eq_some hx).2
        have hle' := offset_le_of_readToken hr
        exact ih.mono (by omega)

end Reader

end PosixRegex
