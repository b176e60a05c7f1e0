import PosixRegex.Proofs.Search.Quoted

namespace PosixRegex

namespace Bracket

variable {opened offset : Nat} {rest : List Char}

def single (c : Char) : Bracket := ⟨false, [.char c]⟩

def printSymbol (c : Char) : List Char := ['[', '[', '.', c, '.', ']', ']']

theorem readItem_symbol (c : Char) : ∃ offset',
    readItem opened ⟨'[' :: '.' :: c :: '.' :: ']' :: ']' :: rest, offset⟩ =
      .ok (.char c, ⟨']' :: rest, offset'⟩) := by
  obtain ⟨offset', hbody⟩ := readBody_single (show '.' ≠ ']' by decide) c (']' :: rest) offset
  refine ⟨offset', ?_⟩
  have helement : readElement opened ⟨'[' :: '.' :: c :: '.' :: ']' :: ']' :: rest, offset⟩ =
      .ok (.char c, ⟨']' :: rest, offset'⟩) := by
    simp only [readElement, tokenKind?, beq_self_eq_true, Bool.or_true, if_true, hbody]
    rfl
  rw [readItem, helement]
  rfl

theorem read_symbol (c : Char) : ∃ offset',
    read opened ⟨'[' :: '.' :: c :: '.' :: ']' :: ']' :: rest, offset⟩ =
      .ok (single c, ⟨rest, offset'⟩) := by
  obtain ⟨offset', hitem⟩ := @readItem_symbol opened offset rest c
  have hitems : ∀ steps, readItems opened (steps + 2) true
      ⟨'[' :: '.' :: c :: '.' :: ']' :: ']' :: rest, offset⟩ =
      .ok ([.char c], ⟨rest, offset' + ']'.utf8Size⟩) := by
    intro steps
    rw [readItems]
    simp only [Cursor.next?, hitem]
    rfl
  refine ⟨offset' + ']'.utf8Size, ?_⟩
  rw [read, Cursor.eat?_singleton_of_ne (by decide)]
  simp only [Option.getD_none, List.length_cons, hitems]
  rfl

end Bracket

theorem Reader.takes_symbol (d : Dialect) (limits : CompileLimits) (c : Char) :
    Takes d limits (Bracket.printSymbol c) (.bracket (.single c)) := by
  intro rest
  refine ⟨'[', ['[', '.', c, '.', ']', ']'], rfl, fun r offset offset' hdollar => ?_⟩
  obtain ⟨last, hread⟩ := @Bracket.read_symbol offset offset' rest c
  have hcheck : r.checkDollar d = .ok () := by simp [checkDollar, hdollar]
  refine ⟨⟨rest, last⟩, 1, 0, rfl, Nat.le_refl 1, ?_⟩
  have htoken : ∀ c, Token.read d '[' c = .ok (.bracket, c) := fun _ => rfl
  unfold readToken
  rw [htoken]
  simp only [Except.mapError, bind, Except.bind, step, hcheck, List.cons_append, List.nil_append]
  change (do
    let found ← Bracket.read offset ⟨'[' :: '.' :: c :: '.' :: ']' :: ']' :: rest, offset'⟩
    return (r.push (.leaf (.bracket found.1) .once) 1 0, found.2)) = _
  rw [hread]
  rfl

theorem Pattern.read_symbols (d : Dialect) (limits : CompileLimits) (cs : List Char) :
    Pattern.read d limits (cs.flatMap Bracket.printSymbol) =
        .ok (.ofLeaves (cs.map fun c => .bracket (.single c))) ∨
      limits.instructions ≤ cs.length ∧
        Outgrown (Pattern.read d limits (cs.flatMap Bracket.printSymbol)) := by
  have hwords := @read_words d limits
    (cs.map fun c => (Bracket.printSymbol c, .bracket (.single c))) (by
      simp only [List.forall_mem_map]
      exact fun c _ => Reader.takes_symbol d limits c)
  rwa [List.flatMap_map, List.map_map, List.length_map] at hwords

namespace Pattern

variable {t : Target}

def sequence (whats : List Consumer) : List Inst := whats.map fun what => .ofAtom (.consume what)

theorem exists_branches_chars (t : Target) (n : Nat) (pending cs : List Char) :
    ∃ runs : List (List Char), (∀ run ∈ runs, run ≠ []) ∧ runs.flatten = pending.reverse ++ cs ∧
      branches t n pending (chars cs .done) = [sequence (runs.map t.literal)] := by
  have hflush : ∀ pending : List Char, ∃ runs : List (List Char), (∀ run ∈ runs, run ≠ []) ∧
      runs.flatten = pending.reverse ∧ t.flush pending = sequence (runs.map t.literal) := by
    intro pending
    cases pending with
    | nil => exact ⟨[], nofun, rfl, rfl⟩
    | cons c pending => exact ⟨[(c :: pending).reverse], by simp, by simp, rfl⟩
  induction cs generalizing pending with
  | nil =>
    obtain ⟨runs, hne, hflat, hcode⟩ := hflush pending
    exact ⟨runs, hne, by rw [hflat, List.append_nil], by rw [← hcode]; rfl⟩
  | cons c cs ih =>
    change ∃ runs : List (List Char), _ ∧ _ ∧ branches t n pending (.leaf (.char c) .once
      (chars cs .done)) = _
    rw [branches]
    split
    · obtain ⟨runs, hne, hflat, hcode⟩ := ih (c :: pending)
      exact ⟨runs, hne, by simp [hflat], hcode⟩
    · obtain ⟨first, hne₁, hflat₁, hcode₁⟩ := hflush pending
      obtain ⟨others, hne₂, hflat₂, hcode₂⟩ := ih [c]
      refine ⟨first ++ others, List.forall_mem_append.mpr ⟨hne₁, hne₂⟩, ?_, ?_⟩
      · rw [List.flatten_append, hflat₁, hflat₂]
        rfl
      · rw [hcode₁, hcode₂, List.map_append, sequence, sequence, sequence, List.map_append]
        rfl

theorem branches_brackets (t : Target) (n : Nat) (bs : List Bracket) :
    branches t n [] (.ofLeaves (bs.map .bracket)) =
      [sequence (bs.map fun b => b.consumer t.options t.locale)] := by
  induction bs with
  | nil => rfl
  | cons b bs ih =>
    change prepend _ (branches t n [] (.ofLeaves (bs.map .bracket))) = _
    rw [ih]
    rfl

theorem insts_of_branches {p : Pattern} {whats : List Consumer}
    (h : p.branches t 1 [] = [sequence whats]) :
    (Program.ofPattern t p).insts.toList = sequence whats ++ [.ofAtom .accept] := by
  simp only [Program.ofPattern, code, h, link]

end Pattern

namespace Matcher

variable {m : Matcher} {t : Target} {cs : List Char} {g pos : Nat} {slots : Slots}

/-- The place behind one repetition of each consumer, one after the other. -/
def consumeAll (m : Matcher) (whats : List Consumer) (pos : Nat) (slots : Slots) : Option Nat :=
  whats.foldlM (fun here what => m.consume what here slots) pos

theorem consumeAll_cons (what : Consumer) (whats : List Consumer) :
    m.consumeAll (what :: whats) pos slots =
      (m.consume what pos slots).bind (m.consumeAll whats · slots) := rfl

theorem consumeAll_literals {runs : List (List Char)} (hne : ∀ run ∈ runs, run ≠ []) :
    m.consumeAll (runs.map t.literal) pos slots =
      m.subject.acceptAll (runs.flatten.map t.spells) pos := by
  induction runs generalizing pos with
  | nil => rfl
  | cons run runs ih =>
    obtain ⟨hrun, hruns⟩ := List.forall_mem_cons.mp hne
    rw [List.map_cons, consumeAll_cons, consume_literal m t hrun, List.flatten_cons,
      List.map_append, Subject.acceptAll_append]
    exact Option.bind_congr fun mid _ => ih hruns

theorem admits_single (t : Target) (c : Char) :
    ((Bracket.single c).consumer t.options t.locale).admits t.locale = t.spells c := by
  have hb : (Bracket.single c).Ascending := by
    intro lo hi hmem
    simp [Bracket.single] at hmem
  funext x
  rw [Bool.eq_iff_iff, Bracket.admits_consumer hb, spells_iff]
  simp [Bracket.Admits, Bracket.single, BracketItem.Lists]

theorem consumeAll_brackets (hm : m.locale = t.locale) :
    m.consumeAll (cs.map fun c => (Bracket.single c).consumer t.options t.locale) pos slots =
      m.subject.acceptAll (cs.map t.spells) pos := by
  induction cs generalizing pos with
  | nil => rfl
  | cons c cs ih =>
    have hone : m.consume ((Bracket.single c).consumer t.options t.locale) pos slots =
        m.subject.accept (t.spells c) pos := by
      rw [← admits_single, ← hm]
      unfold Bracket.consumer
      split <;> rfl
    rw [List.map_cons, consumeAll_cons, hone, List.map_cons, Subject.acceptAll_cons]
    exact Option.bind_congr fun mid _ => ih

theorem consume_backRefFold (hm : m.locale = t.locale) (hcase : t.options.ignoreCase = true)
    (hheld : m.captured? slots g = some cs) :
    m.consume (.backRefFold g) pos slots = m.subject.acceptAll (cs.map t.spells) pos := by
  have hfold : m.locale.foldEq = t.spells := by
    funext c x
    rw [Bool.eq_iff_iff, spells_iff, hm, Locale.foldEq, Bool.or_eq_true, beq_iff_eq, beq_iff_eq,
      eq_comm (a := c)]
    exact or_congr_right (and_iff_right hcase).symm
  rw [← hfold]
  simp [consume, hheld]

/-- Without regard to case the literals that a text is compiled to when it is quoted, the
back-reference to a group that holds the text, and the bracket expressions of its characters, one
after the other, fail or lead to the same place, wherever they start. -/
theorem folding_agrees (o : Options) (ho : o.ignoreCase = true) (l : Locale)
    (limits : CompileLimits) (cs : List Char) :
    (∃ p q literals brackets, Program.compile o l limits (cs.flatMap o.dialect.quote) = .ok p ∧
      Program.compile o l limits (cs.flatMap Bracket.printSymbol) = .ok q ∧
      p.insts.toList = Pattern.sequence literals ++ [.ofAtom .accept] ∧
      q.insts.toList = Pattern.sequence brackets ++ [.ofAtom .accept] ∧
      ∀ (m : Matcher) (g pos : Nat) (slots : Slots), m.locale = l →
        m.captured? slots g = some cs →
        m.consumeAll literals pos slots = m.consume (.backRefFold g) pos slots ∧
        m.consumeAll brackets pos slots = m.consume (.backRefFold g) pos slots) ∨
    limits.instructions ≤ cs.length ∧
      (Outgrown (Program.compile o l limits (cs.flatMap o.dialect.quote)) ∨
        Outgrown (Program.compile o l limits (cs.flatMap Bracket.printSymbol))) := by
  have hcompile : ∀ text, Outgrown (Pattern.read o.dialect limits text) →
      Outgrown (Program.compile o l limits text) := by
    rintro text ⟨offset, hread⟩
    exact ⟨offset, Program.compile_eq_error_iff.mpr hread⟩
  obtain hquoted | ⟨hlimit, hlarge⟩ := Pattern.read_quote o.dialect limits cs
  · obtain hsymbols | ⟨hlimit, hlarge⟩ := Pattern.read_symbols o.dialect limits cs
    · let t : Target := ⟨o, l, limits.run⟩
      obtain ⟨runs, hne, hflat, hruns⟩ := Pattern.exists_branches_chars t 1 [] cs
      have hbrackets := Pattern.branches_brackets t 1 (cs.map .single)
      rw [List.map_map, List.map_map] at hbrackets
      refine Or.inl ⟨_, _, _, _, Program.compile_of_read hquoted l,
        Program.compile_of_read hsymbols l, Pattern.insts_of_branches hruns,
        Pattern.insts_of_branches hbrackets, fun m g pos slots hm hheld => ?_⟩
      rw [consume_backRefFold (t := t) hm ho hheld, consumeAll_literals hne, hflat]
      exact ⟨rfl, consumeAll_brackets hm⟩
    · exact Or.inr ⟨hlimit, Or.inr (hcompile _ hlarge)⟩
  · exact Or.inr ⟨hlimit, Or.inl (hcompile _ hlarge)⟩

def longS : Matcher :=
  ⟨.ofPattern ⟨Regex.uncasedExtended, .unicode, 255⟩ .done, .unicode, .ofList ['ſ', '.', 'S', '.'], {}⟩

/-- Without regard to case `S.` stands for `ſ.`, though it has one byte less. -/
theorem folding_agrees_shorter :
    let slots : Slots := #[⟨0, some 0, none⟩, ⟨0, some 0, some 3⟩]
    longS.captured? slots 1 = some ['ſ', '.'] ∧
    ∃ p q literals brackets,
      Program.compile Regex.uncasedExtended .unicode {} ['ſ', '\\', '.'] = .ok p ∧
      Program.compile Regex.uncasedExtended .unicode {}
        ['[', '[', '.', 'ſ', '.', ']', ']', '[', '[', '.', '.', '.', ']', ']'] = .ok q ∧
      p.insts.toList = Pattern.sequence literals ++ [.ofAtom .accept] ∧
      q.insts.toList = Pattern.sequence brackets ++ [.ofAtom .accept] ∧
      longS.consume (.backRefFold 1) 3 slots = some 5 ∧
      longS.consumeAll literals 3 slots = some 5 ∧ longS.consumeAll brackets 3 slots = some 5 := by
  intro slots
  have hheld : longS.captured? slots 1 = some ['ſ', '.'] := by decide +kernel
  have hback : longS.consume (.backRefFold 1) 3 slots = some 5 := by decide +kernel
  refine ⟨hheld, ?_⟩
  obtain ⟨p, q, literals, brackets, hp, hq, hliterals, hbrackets, hall⟩ | ⟨hlimit, -⟩ :=
    folding_agrees Regex.uncasedExtended rfl .unicode {} ['ſ', '.']
  · obtain ⟨hsame, hsame'⟩ := hall longS 1 3 slots rfl hheld
    exact ⟨p, q, literals, brackets, hp, hq, hliterals, hbrackets, hback, hsame.trans hback,
      hsame'.trans hback⟩
  · exact absurd hlimit (by decide)

end Matcher

end PosixRegex
