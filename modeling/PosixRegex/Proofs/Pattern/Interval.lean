import PosixRegex.Proofs.Pattern.Passage
import PosixRegex.Proofs.Pattern.Spelling

namespace PosixRegex

structure Numeral where
  digits : List Char
  ne_nil : digits ≠ []
  isDigit : ∀ x ∈ digits, x.isDigit = true

namespace Numeral

def value (n : Numeral) : Nat := Nat.ofDigitChars 10 n.digits 0

/-- The number as it comes out in words that stop at `ceiling` instead of wrapping around. -/
def saturated (ceiling : Nat) (n : Numeral) : Nat :=
  n.digits.foldl (fun v d => min ceiling (min ceiling (v * 10) + (d.toNat - '0'.toNat))) 0

theorem saturated_eq_min (ceiling : Nat) (n : Numeral) :
    n.saturated ceiling = min ceiling n.value := by
  have hfold : ∀ (ds : List Char) (v : Nat),
      ds.foldl (fun v d => min ceiling (min ceiling (v * 10) + (d.toNat - '0'.toNat)))
        (min ceiling v) =
      min ceiling (ds.foldl (fun v d => 10 * v + (d.toNat - '0'.toNat)) v) := by
    intro ds
    induction ds with
    | nil => exact fun v => rfl
    | cons d ds ih =>
      intro v
      -- Whatever is cut off before a digit is added would be cut off behind it as well.
      have hstep : min ceiling (min ceiling (min ceiling v * 10) + (d.toNat - '0'.toNat)) =
          min ceiling (10 * v + (d.toNat - '0'.toNat)) := by
        omega
      rw [List.foldl_cons, List.foldl_cons, hstep, ih]
  rw [value, Nat.ofDigitChars_eq_foldl, ← hfold n.digits 0, Nat.min_zero]
  rfl

end Numeral

inductive Interval
  | exactly (m : Numeral)
  | atLeast (m : Numeral)
  | between (m n : Numeral)

namespace Interval

/-- The text behind the opening brace. -/
def print (d : Dialect) : Interval → List Char
  | exactly m => m.digits ++ Bounds.close d
  | atLeast m => m.digits ++ ',' :: Bounds.close d
  | between m n => m.digits ++ ',' :: (n.digits ++ Bounds.close d)

/-- The bounds, where `value` tells what the numbers amount to. -/
def bounds (value : Numeral → Nat) : Interval → Bounds
  | exactly m => ⟨value m, some (value m)⟩
  | atLeast m => ⟨value m, none⟩
  | between m n => ⟨value m, some (value n)⟩

end Interval

namespace Cursor

variable {c after : Cursor} {rest : List Char}

theorem number?_numeral (n : Numeral) (offset : Nat)
    (hrest : ∀ x xs, rest = x :: xs → x.isDigit = false) :
    number? ⟨n.digits ++ rest, offset⟩ =
      some (n.value, ⟨rest, offset + byteLength n.digits⟩) := by
  rw [number?_append n.ne_nil n.isDigit offset hrest, byteLength_digits n.isDigit]
  rfl

theorem exists_numeral_of_number? {k : Nat} (h : c.number? = some (k, after)) :
    ∃ n : Numeral, c.rest = n.digits ++ after.rest := by
  unfold number? at h
  split at h
  · cases h
  · rename_i hne
    cases h
    exact ⟨⟨c.rest.takeWhile Char.isDigit, hne, List.all_eq_true.mp List.all_takeWhile⟩,
      List.takeWhile_append_dropWhile.symm⟩

theorem eq_append_of_eat? {word : List Char} (h : c.eat? word = some after) :
    c.rest = word ++ after.rest := by
  unfold eat? at h
  split at h
  · rename_i hword
    cases h
    obtain ⟨tail, htail⟩ := List.isPrefixOf_iff_prefix.mp hword
    simp [← htail]
  · cases h

end Cursor

namespace Bounds

variable {d : Dialect} {rest text : List Char} {offset : Nat}

def Admissible (b : Bounds) : Prop := b.min ≤ 255 ∧ ∀ n ∈ b.max, b.min ≤ n ∧ n ≤ 255

instance (b : Bounds) : Decidable b.Admissible :=
  inferInstanceAs (Decidable (b.min ≤ 255 ∧ ∀ n ∈ b.max, b.min ≤ n ∧ n ≤ 255))

def times (b : Bounds) : Repetition := b.max.elim (.atLeast b.min) (.between b.min)

theorem repetition?_eq_ite (b : Bounds) :
    b.repetition? = if b.Admissible then some b.times else none := by
  obtain ⟨m, n⟩ := b
  unfold repetition? Admissible times Repetition.maxBound
  cases n with
  | none => simp
  | some n =>
    have hiff : (m ≤ n ∧ n ≤ 255) ↔ m ≤ 255 ∧ m ≤ n ∧ n ≤ 255 := by omega
    simpa using if_congr hiff rfl rfl

theorem read?_print (i : Interval) :
    read? d ⟨i.print d ++ rest, offset⟩ =
      some (i.bounds Numeral.value, ⟨rest, offset + byteLength (i.print d)⟩) := by
  obtain ⟨x, xs, hclose, hdigit, hcomma⟩ := exists_close_eq d rest
  have hbrace : ∀ y ys, close d ++ rest = y :: ys → y.isDigit = false := by
    intro y ys hy
    rw [hclose] at hy
    exact (List.cons.inj hy).1 ▸ hdigit
  have hcommaDigit : ∀ {text : List Char} (y : Char) (ys : List Char),
      ',' :: text = y :: ys → y.isDigit = false :=
    fun y ys hy => (List.cons.inj hy).1 ▸ rfl
  have heat : ∀ text offset, Cursor.eat? ⟨',' :: text, offset⟩ [','] = some ⟨text, offset + 1⟩ :=
    fun text offset => Cursor.eat?_append [','] text offset
  have hone : ','.utf8Size = 1 := rfl
  cases i with
  | exactly m =>
    have hnone : ∀ offset, Cursor.eat? ⟨close d ++ rest, offset⟩ [','] = none := by
      intro offset
      rw [hclose]
      exact Cursor.eat?_singleton_of_ne hcomma
    simp only [Interval.print, List.append_assoc, read?, Cursor.number?_numeral m offset hbrace,
      Option.bind_eq_bind, Option.bind_some, hnone, Cursor.eat?_append, Option.map_some,
      byteLength_append, Nat.add_assoc, Interval.bounds]
  | atLeast m =>
    have hnone : ∀ offset, Cursor.number? ⟨close d ++ rest, offset⟩ = none := by
      intro offset
      simp [Cursor.number?, hclose, hdigit]
    simp only [Interval.print, List.append_assoc, List.cons_append, read?,
      Cursor.number?_numeral m offset hcommaDigit, Option.bind_eq_bind, Option.bind_some, heat,
      hnone, Cursor.eat?_append, Option.map_some, byteLength_append, byteLength, hone,
      Nat.add_assoc, Interval.bounds]
  | between m n =>
    simp only [Interval.print, List.append_assoc, List.cons_append, read?,
      Cursor.number?_numeral m offset hcommaDigit, Option.bind_eq_bind, Option.bind_some, heat,
      Cursor.number?_numeral n _ hbrace, Cursor.eat?_append, Option.map_some, byteLength_append,
      byteLength, hone, Nat.add_assoc, Interval.bounds]

theorem exists_interval_of_read? {c after : Cursor} {b : Bounds}
    (h : read? d c = some (b, after)) : ∃ i : Interval, c.rest = i.print d ++ after.rest := by
  obtain ⟨⟨m, c₁⟩, hm, h⟩ := Option.bind_eq_some_iff.mp h
  obtain ⟨m, hrest⟩ := Cursor.exists_numeral_of_number? hm
  have hclose : ∀ {c₂ : Cursor} {b₂ : Bounds},
      (c₂.eat? (close d)).map (fun c => (b₂, c)) = some (b, after) →
      c₂.rest = close d ++ after.rest := by
    intro c₂ b₂ h
    obtain ⟨c₃, heat, heq⟩ := Option.map_eq_some_iff.mp h
    cases heq
    exact Cursor.eq_append_of_eat? heat
  simp only at h
  split at h
  · exact ⟨.exactly m, by rw [hrest, hclose h, Interval.print, List.append_assoc]⟩
  · rename_i c₂ hcomma
    have hcomma := Cursor.eq_append_of_eat? hcomma
    split at h
    · refine ⟨.atLeast m, ?_⟩
      rw [hrest, hcomma, hclose h, Interval.print, List.append_assoc]
      rfl
    · rename_i n c₃ hn
      obtain ⟨n, hrest'⟩ := Cursor.exists_numeral_of_number? hn
      refine ⟨.between m n, ?_⟩
      rw [hrest, hcomma, hrest', hclose h, Interval.print]
      simp

end Bounds

namespace Interval

variable {ceiling : Nat}

theorem bounds_saturated (ceiling : Nat) (i : Interval) :
    i.bounds (Numeral.saturated ceiling) = i.bounds fun n => min ceiling n.value :=
  congrArg i.bounds (funext (Numeral.saturated_eq_min ceiling))

/-- Words that stop at a number above 255 make no difference to what is accepted. -/
theorem repetition?_saturated (h : 255 < ceiling) (i : Interval) :
    (i.bounds (Numeral.saturated ceiling)).repetition? = (i.bounds Numeral.value).repetition? := by
  have hmin : ∀ k, k ≤ 255 → min ceiling k = k := by omega
  have hadmissible : (i.bounds fun n => min ceiling n.value).Admissible ↔
      (i.bounds Numeral.value).Admissible := by
    cases i <;> simp only [bounds, Bounds.Admissible, Option.mem_def, Option.some.injEq,
      forall_eq', reduceCtorEq, false_implies, implies_true, and_true] <;> omega
  rw [bounds_saturated, Bounds.repetition?_eq_ite, Bounds.repetition?_eq_ite]
  by_cases hb : (i.bounds Numeral.value).Admissible
  · rw [if_pos hb, if_pos (hadmissible.mpr hb)]
    -- Numbers that are accepted are left alone.
    cases i with
    | exactly m | atLeast m =>
      have hm : min ceiling m.value = m.value := hmin _ hb.1
      simp only [bounds, hm]
    | between m n =>
      have hm : min ceiling m.value = m.value := hmin _ hb.1
      have hn : min ceiling n.value = n.value := hmin _ (hb.2 _ rfl).2
      simp only [bounds, hm, hn]
  · rw [if_neg hb, if_neg (mt hadmissible.mp hb)]

end Interval

/-- The place behind the opening brace of an interval that starts at `offset`. -/
def Dialect.behindBrace (d : Dialect) (offset : Nat) (text : List Char) : Cursor :=
  ⟨text, offset + byteLength (d.operator '\x7b')⟩

namespace Reader

variable {d : Dialect} {limits : CompileLimits} {r : Reader} {text : List Char} {offset : Nat}

/-- Pass over the opening brace at `offset`, with `text` behind it, and over the interval that it
may open. -/
def readBrace (d : Dialect) (limits : CompileLimits) (r : Reader) (offset : Nat)
    (text : List Char) : Except PatternError (Reader × Cursor) :=
  match d with
  | .basic => r.readToken .basic limits '\\' offset ⟨'\x7b' :: text, offset + 1⟩
  | .extended => r.readToken .extended limits '\x7b' offset ⟨text, offset + 1⟩

/-- What a token at `offset` comes to, when `after` is the place behind it. -/
def passed (offset : Nat) (after : Cursor) (effect : Except PatternFault Reader) :
    Except PatternError (Reader × Cursor) :=
  (effect.map (·, after)).mapError (⟨offset, ·⟩)

/-- An interval with bounds `b` is a quantifier, unless the bounds are refused. -/
def boundedBrace (d : Dialect) (r : Reader) (b : Bounds) : Except PatternFault Reader :=
  if b.Admissible then r.quantify d b.times else .error .badInterval

/-- A brace that opens no interval is an ordinary character in the extended dialect only. -/
def plainBrace (d : Dialect) (limits : CompileLimits) (r : Reader) : Except PatternFault Reader :=
  match d with
  | .basic => .error .badInterval
  | .extended => r.char .extended limits '\x7b'

theorem exists_readBrace_eq (d : Dialect) (limits : CompileLimits) (r : Reader) (offset : Nat)
    (text : List Char) : ∃ x c, r.readBrace d limits offset text = r.readToken d limits x offset c ∧
      Token.read d x c = Token.readInterval d (d.behindBrace offset text) := by
  cases d <;> exact ⟨_, _, rfl, rfl⟩

theorem readBrace_of_error {fault : PatternFault}
    (h : Token.readInterval d (d.behindBrace offset text) = .error fault) :
    r.readBrace d limits offset text = .error ⟨offset, fault⟩ := by
  obtain ⟨x, c, hbrace, hread⟩ := exists_readBrace_eq d limits r offset text
  rw [hbrace, readToken, hread, h]
  rfl

theorem readBrace_of_token {token : Token} {after : Cursor}
    (h : Token.readInterval d (d.behindBrace offset text) = .ok (token, after))
    (hb : token ≠ .bracket) :
    r.readBrace d limits offset text = passed offset after (r.step d limits offset token) := by
  obtain ⟨x, c, hbrace, hread⟩ := exists_readBrace_eq d limits r offset text
  rw [hbrace, readToken, hread, h]
  simp only [Except.mapError, bind, Except.bind, passed]
  cases r.step d limits offset token with
  | error fault => rfl
  | ok r' =>
    cases token with
    | bracket => exact absurd rfl hb
    | _ => rfl

theorem readBrace_of_some {b : Bounds} {after : Cursor}
    (h : Bounds.read? d (d.behindBrace offset text) = some (b, after)) :
    r.readBrace d limits offset text = passed offset after (r.boundedBrace d b) := by
  unfold boundedBrace
  by_cases hb : b.Admissible
  · have htoken : Token.readInterval d (d.behindBrace offset text) =
        .ok (.quantifier b.times, after) := by
      simp only [Token.readInterval, h, Bounds.repetition?_eq_ite, if_pos hb]
    rw [if_pos hb, readBrace_of_token htoken (by simp)]
    rfl
  · have htoken : Token.readInterval d (d.behindBrace offset text) = .error .badInterval := by
      simp only [Token.readInterval, h, Bounds.repetition?_eq_ite, if_neg hb]
    rw [if_neg hb, readBrace_of_error htoken]
    rfl

theorem readBrace_of_none (h : Bounds.read? d (d.behindBrace offset text) = none) :
    r.readBrace d limits offset text =
      passed offset (d.behindBrace offset text) (r.plainBrace d limits) := by
  cases d with
  | basic =>
    have htoken : Token.readInterval .basic (Dialect.basic.behindBrace offset text) =
        .error .badInterval := by
      simp only [Token.readInterval, h]
    rw [readBrace_of_error htoken]
    rfl
  | extended =>
    have htoken : Token.readInterval .extended (Dialect.extended.behindBrace offset text) =
        .ok (.char '\x7b', Dialect.extended.behindBrace offset text) := by
      simp only [Token.readInterval, h]
    rw [readBrace_of_token htoken (by simp)]
    rfl

/-- What follows an opening brace is an interval exactly if it is written like one. Its bounds are
the numbers that are written, of any length, and they are accepted exactly if they are not larger
than 255 and in order, also when they are computed in words that stop at a ceiling. With any other
text the place is the one behind the brace, which is a character in the extended dialect and an
error in the basic one. -/
theorem readBrace_interval (d : Dialect) (limits : CompileLimits) (r : Reader) (offset : Nat)
    (text : List Char) :
    (∀ (i : Interval) (rest : List Char), text = i.print d ++ rest →
      let b := i.bounds Numeral.value
      let after : Cursor := ⟨rest, (d.behindBrace offset text).offset + byteLength (i.print d)⟩
      Bounds.read? d (d.behindBrace offset text) = some (b, after) ∧
      (∀ ceiling, 255 < ceiling → (i.bounds (Numeral.saturated ceiling)).repetition? =
        if b.Admissible then some b.times else none) ∧
      r.readBrace d limits offset text = passed offset after (r.boundedBrace d b)) ∧
    ((∀ (i : Interval) (rest : List Char), text ≠ i.print d ++ rest) →
      Bounds.read? d (d.behindBrace offset text) = none ∧
      r.readBrace d limits offset text =
        passed offset (d.behindBrace offset text) (r.plainBrace d limits)) := by
  constructor
  · rintro i rest rfl
    have hread := @Bounds.read?_print d rest (offset + byteLength (d.operator '\x7b')) i
    refine ⟨hread, fun ceiling hceiling => ?_, readBrace_of_some hread⟩
    rw [Interval.repetition?_saturated hceiling, Bounds.repetition?_eq_ite]
  · intro hother
    have hnone : Bounds.read? d (d.behindBrace offset text) = none := by
      refine Option.eq_none_iff_forall_ne_some.mpr fun found hread => ?_
      obtain ⟨i, hi⟩ := Bounds.exists_interval_of_read? hread
      exact hother i found.2.rest hi
    exact ⟨hnone, readBrace_of_none hnone⟩

def wrapping : Numeral where
  digits := ['4', '2', '9', '4', '9', '6', '7', '2', '9', '7']
  ne_nil := List.cons_ne_nil _ _
  isDigit := List.all_eq_true.mp rfl

/-- `{4294967297}` is refused, though its number is one too large for a word of 32 bits, and `{1,a}`
consists of characters. -/
theorem readBrace_interval_plain :
    (['4', '2', '9', '4', '9', '6', '7', '2', '9', '7', '\x7d'] =
        (Interval.exactly wrapping).print .extended ++ [] ∧
      start.readBrace .extended {} 0 ['4', '2', '9', '4', '9', '6', '7', '2', '9', '7', '\x7d'] =
        .error ⟨0, .badInterval⟩) ∧
    (∀ (i : Interval) (rest : List Char), ['1', ',', 'a', '\x7d'] ≠ i.print .extended ++ rest) ∧
      start.readBrace .extended {} 0 ['1', ',', 'a', '\x7d'] =
        .ok (start.push (.leaf (.char '\x7b') .once) 1 1, ⟨['1', ',', 'a', '\x7d'], 1⟩) := by
  have hlarge := (readBrace_interval .extended {} start 0
    ['4', '2', '9', '4', '9', '6', '7', '2', '9', '7', '\x7d']).1 (.exactly wrapping) [] rfl
  have hother : ∀ (i : Interval) (rest : List Char),
      ['1', ',', 'a', '\x7d'] ≠ i.print .extended ++ rest := by
    intro i rest h
    have hread := @Bounds.read?_print .extended rest 1 i
    rw [← h] at hread
    cases hread
  exact ⟨⟨rfl, hlarge.2.2⟩, hother, ((readBrace_interval .extended {} start 0 _).2 hother).2⟩

end Reader

end PosixRegex
