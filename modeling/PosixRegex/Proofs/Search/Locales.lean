import PosixRegex.Proofs.Line
import PosixRegex.Proofs.Pattern.Leaves
import PosixRegex.Proofs.Search.FirstMatch
import PosixRegex.Proofs.Search.Mirror

namespace PosixRegex

variable {o : Options} {c : Char}

namespace BracketItem

theorem lists_equivalence_ascii {x : Char} (hx : x.toNat < 128) (hc : c.toNat < 128) :
    (equivalence x).Lists o .unicode c ↔ (equivalence x).Lists o .posix c := by
  constructor
  · rintro ⟨y, hy, hyc⟩
    refine ⟨x, List.mem_singleton_self x, ?_⟩
    rcases Locale.mem_equivalents_ascii hx hy with rfl | ⟨hge, hbase⟩
    · rwa [Locale.opposite?_ascii hx] at hyc
    · exfalso
      rcases hyc with rfl | ⟨-, hopposite⟩
      · omega
      · have := Locale.le_of_opposite?_accented hbase hge hopposite
        omega
  · rintro ⟨y, hy, hyc⟩
    obtain rfl := List.mem_singleton.mp hy
    refine ⟨y, Locale.mem_equivalents_self hx, ?_⟩
    rwa [Locale.opposite?_ascii hx]

theorem lists_ascii {i : BracketItem} (hi : Ascii i.chars) (hc : c.toNat < 128) :
    i.Lists o .unicode c ↔ i.Lists o .posix c := by
  cases i with
  | char x =>
    have hx := ascii_singleton.mp hi
    simp only [Lists, Locale.opposite?_ascii hx]
  | range lo hi' =>
    have hhi : hi'.toNat < 128 := hi hi' (by simp [chars])
    have hopposite : ∀ x : Char, x.toNat ≤ hi'.toNat →
        Locale.unicode.opposite? x = Locale.posix.opposite? x :=
      fun x hx => Locale.opposite?_ascii (Nat.lt_of_le_of_lt hx hhi)
    simp only [Lists]
    refine or_congr_right (and_congr_right fun _ => exists_congr fun x => ?_)
    exact and_congr_right fun _ => and_congr_right fun hx => by rw [hopposite x hx]
  | equivalence x => exact lists_equivalence_ascii (ascii_singleton.mp hi) hc
  | cls k => simp only [Lists, Locale.isClass_ascii hc]

end BracketItem

theorem Bracket.admits_ascii {b : Bracket} (hb : ∀ i ∈ b.items, Ascii i.chars)
    (hc : c.toNat < 128) : b.Admits o .unicode c ↔ b.Admits o .posix c := by
  have hlists : ∀ i ∈ b.items, (i.Lists o .unicode c ↔ i.Lists o .posix c) :=
    fun i hi => BracketItem.lists_ascii (hb i hi) hc
  unfold Admits
  split
  · exact and_congr_left fun _ => forall₂_congr fun i hi => not_congr (hlists i hi)
  · exact exists_congr fun i => and_congr_right fun hi => hlists i hi

theorem Leaf.admits_ascii {what : Leaf} (hwhat : Ascii what.chars) (hc : c.toNat < 128) :
    what.Admits o .unicode c ↔ what.Admits o .posix c := by
  cases what with
  | char x => simp only [Admits, Locale.opposite?_ascii (ascii_singleton.mp hwhat)]
  | any | backRef g => rfl
  | bracket b =>
    refine Bracket.admits_ascii (fun i hi x hx => hwhat x ?_) hc
    exact List.mem_flatMap.mpr ⟨i, hi, hx⟩

namespace Matcher

def ofLocale (o : Options) (run : Nat) (p : Pattern) (s : Subject) (flags : ExecFlags)
    (l : Locale) : Matcher :=
  ⟨.ofPattern ⟨o, l, run⟩ p, l, s, flags⟩

section

variable {run : Nat} {p : Pattern} {s : Subject} {flags : ExecFlags} {pos : Nat} {slots : Slots}

theorem suits_ofLocale (l : Locale) : (ofLocale o run p s flags l).Suits ⟨o, l, run⟩ := ⟨rfl, rfl⟩

variable (hs : Ascii s.chars)

include hs

theorem atWordEdge_ascii (edge : WordEdge) (pos : Nat) :
    (ofLocale o run p s flags .unicode).atWordEdge edge pos =
      (ofLocale o run p s flags .posix).atWordEdge edge pos := by
  have hword : ∀ c? : Option Char, (∀ c, c? = some c → c ∈ s.chars) →
      c?.any Locale.unicode.isWord = c?.any Locale.posix.isWord := by
    intro c? hc
    cases c? with
    | none => rfl
    | some c => exact Locale.isWord_ascii (hs c (hc c rfl))
  have hbefore := hword (s.charBefore? pos) fun c => Subject.mem_of_charBefore?
  have hafter := hword (s.charAt? pos) fun c => Subject.mem_of_charAt?
  simp only [atWordEdge, ofLocale, hbefore, hafter]

theorem holds_ascii (what : Assertion) (pos : Nat) :
    (ofLocale o run p s flags .unicode).holds what pos =
      (ofLocale o run p s flags .posix).holds what pos := by
  cases what with
  | lineStart | lineEnd => rfl
  | word edge => exact atWordEdge_ascii hs edge pos

theorem takes_ascii {what : Leaf} (hwhat : Ascii what.chars) (hchar : ∀ g, what ≠ .backRef g)
    (held : Nat → Option Span) (next : Nat) :
    Reading.Takes ⟨o, .unicode, s, flags⟩ held pos next what ↔
      Reading.Takes ⟨o, .posix, s, flags⟩ held pos next what := by
  have hadmits : (∃ c, s.Spells pos next [c] ∧ what.Admits o .unicode c) ↔
      ∃ c, s.Spells pos next [c] ∧ what.Admits o .posix c := by
    refine exists_congr fun c => and_congr_right fun hc => Leaf.admits_ascii hwhat (hs c ?_)
    exact Subject.mem_of_charAt? (Subject.spells_singleton.mp hc).1
  cases what with
  | backRef g => exact absurd rfl (hchar g)
  | char | any | bracket => exact hadmits

theorem repeats_ascii {x : Char} (hx : x ∈ s.chars) :
    (ofLocale o run p s flags .unicode).repeats ⟨o, .unicode, run⟩ x =
      (ofLocale o run p s flags .posix).repeats ⟨o, .posix, run⟩ x := by
  funext c
  simp only [repeats, ofLocale, Locale.foldEq_ascii (hs x hx)]

theorem consume_single_ascii {what : Leaf} (hwhat : Ascii what.chars) (hproper : what.Proper [])
    (hchar : ∀ g, what ≠ .backRef g) :
    (ofLocale o run p s flags .unicode).consume (Target.consumer ⟨o, .unicode, run⟩ what) pos
        slots =
      (ofLocale o run p s flags .posix).consume (Target.consumer ⟨o, .posix, run⟩ what) pos
        slots := by
  apply Option.ext
  intro next
  exact (consume_single_iff (suits_ofLocale .unicode) hproper hchar).trans
    ((takes_ascii hs hwhat hchar (fun _ => none) next).trans
      (consume_single_iff (suits_ofLocale .posix) hproper hchar).symm)

theorem consume_ascii {what : Leaf} (hwhat : Ascii what.chars) (hproper : what.Proper []) :
    (ofLocale o run p s flags .unicode).consume (Target.consumer ⟨o, .unicode, run⟩ what) pos
        slots =
      (ofLocale o run p s flags .posix).consume (Target.consumer ⟨o, .posix, run⟩ what) pos
        slots := by
  cases what with
  | char | any | bracket => exact consume_single_ascii hs hwhat hproper fun _ => nofun
  | backRef g =>
    rw [consume_backRef, consume_backRef]
    apply Option.bind_congr
    intro cs hcs
    obtain ⟨span, -, rfl⟩ := Option.map_eq_some_iff.mp hcs
    exact congrArg (s.acceptAll · pos)
      (List.map_congr_left fun x hx => repeats_ascii hs (Subject.mem_of_mem_slice hx))

theorem found_ascii (hleaves : ∀ what ∈ p.leaves, Ascii what.chars) (hp : p.Proper [] 1) :
    (ofLocale o run p s flags .unicode).found ⟨o, .unicode, run⟩ p =
      (ofLocale o run p s flags .posix).found ⟨o, .posix, run⟩ p := by
  have hgroups : (ofLocale o run p s flags .unicode).program.groups.size =
      (ofLocale o run p s flags .posix).program.groups.size := by
    simp only [ofLocale, Program.size_groups_ofPattern]
  exact found_congr rfl hgroups (holds_ascii hs) fun what hwhat _ _ =>
    consume_ascii hs (hleaves what hwhat) (hp.leaves what hwhat)

theorem firstFound_ascii (hleaves : ∀ what ∈ p.leaves, Ascii what.chars) (hp : p.Proper [] 1)
    (start : Nat) :
    (ofLocale o run p s flags .unicode).firstFound ⟨o, .unicode, run⟩ p start =
      (ofLocale o run p s flags .posix).firstFound ⟨o, .posix, run⟩ p start :=
  congrArg (List.findSome? · _) (found_ascii hs hleaves hp)

end

/-- The locales agree on ASCII: a pattern is rejected in both of them for the same reason at the same
place, or in neither, and then both searches of a subject report the same unless a limit stops them. -/
theorem execute_ascii {compileLimits : CompileLimits} {text : List Char}
    (htext : Ascii text) :
    (∀ e, Program.compile o .posix compileLimits text = .error e ↔
      Program.compile o .unicode compileLimits text = .error e) ∧
    ∀ p q, Program.compile o .posix compileLimits text = .ok p →
      Program.compile o .unicode compileLimits text = .ok q →
      ∀ (s : Subject) (flags : ExecFlags) (limits limits' : SearchLimits) (start capture : Nat),
        Ascii s.chars → WithinLimits ((Matcher.mk p .posix s flags).execute limits start capture) →
        WithinLimits ((Matcher.mk q .unicode s flags).execute limits' start capture) →
        ∃ found, (Matcher.mk p .posix s flags).execute limits start capture = .ok found ∧
          (Matcher.mk q .unicode s flags).execute limits' start capture = .ok found := by
  constructor
  · intro e
    unfold Program.compile
    cases Pattern.read o.dialect compileLimits text with
    | error e' => rfl
    | ok p => exact ⟨fun h => (nomatch h), fun h => (nomatch h)⟩
  · intro first second hfirst hsecond s flags limits limits' start capture hs hlimit hlimit'
    have hconnected := Program.connected_of_compile hfirst
    have hconnected' := Program.connected_of_compile hsecond
    obtain ⟨p, hp, rfl⟩ := Program.exists_ofPattern hfirst
    obtain ⟨q, hq, rfl⟩ := Program.exists_ofPattern hsecond
    obtain rfl := Except.ok.inj (hp.symm.trans hq)
    refine ⟨_, execute_eq_firstFound rfl hconnected hlimit, ?_⟩
    rw [execute_eq_firstFound rfl hconnected' hlimit']
    have hfound : (ofLocale o compileLimits.run p s flags .unicode).firstFound _ p start =
        (ofLocale o compileLimits.run p s flags .posix).firstFound _ p start :=
      firstFound_ascii hs (Pattern.ascii_of_read hp htext) (Pattern.proper_of_read hp) start
    exact congrArg (fun found => Except.ok (report _ capture found)) hfound

def caseless : Options := { dialect := .extended, ignoreCase := true }

def doubled : Pattern :=
  .group (.leaf (.bracket ⟨false, [.cls .upper]⟩) .once .done) .once
    (.leaf (.backRef 1) .once .done)

/-- In the Unicode locale the bracket expression also stands for letters beyond ASCII. -/
theorem execute_ascii_doubled :
    ∃ found, (ofLocale caseless 255 doubled (.ofList ['1', 'E', 'e']) {} .posix).execute {} 0 2 =
        .ok found ∧
      (ofLocale caseless 255 doubled (.ofList ['1', 'E', 'e']) {} .unicode).execute {} 0 2 =
        .ok found ∧
      found = some ⟨[some ⟨1, 3⟩, some ⟨1, 2⟩]⟩ := by
  have htext : Ascii "([[:upper:]])\\1".toList := by decide +kernel
  have hposix : Program.compile caseless .posix {} "([[:upper:]])\\1".toList =
      .ok (.ofPattern ⟨caseless, .posix, 255⟩ doubled) := by decide +kernel
  have hunicode : Program.compile caseless .unicode {} "([[:upper:]])\\1".toList =
      .ok (.ofPattern ⟨caseless, .unicode, 255⟩ doubled) := by decide +kernel
  obtain ⟨found, hfound, hfound'⟩ := (execute_ascii htext).2 _ _ hposix hunicode
    (.ofList ['1', 'E', 'e']) {} {} {} 0 2 (by decide +kernel) (.of_isOk (by decide +kernel))
    (.of_isOk (by decide +kernel))
  refine ⟨found, hfound, hfound', ?_⟩
  have hrun : (ofLocale caseless 255 doubled (.ofList ['1', 'E', 'e']) {} .posix).execute {} 0 2 =
      .ok (some ⟨[some ⟨1, 3⟩, some ⟨1, 2⟩]⟩) := by decide +kernel
  exact Except.ok.inj (hfound.symm.trans hrun)

end Matcher

end PosixRegex
