import PosixRegex.Proofs.Pattern.RegularLanguage
import PosixRegex.Proofs.Pattern.RoundTrip
import PosixRegex.Proofs.Search.LeftmostLongest

namespace PosixRegex

theorem Program.of_print {o : Options} {l : Locale} {limits : CompileLimits} {p : Pattern}
    {prog : Program} (hw : p.Writable) (ho : o.dialect = .extended)
    (hc : compile o l limits p.print = .ok prog) :
    p.Proper [] 1 ∧ prog = ofPattern ⟨o, l, limits.run⟩ p := by
  obtain ⟨q, hq, rfl⟩ := exists_ofPattern hc
  rw [ho] at hq
  obtain rfl := Pattern.eq_of_read_print hw hq
  exact ⟨Pattern.proper_of_read hq, rfl⟩

namespace Matcher

variable {m : Matcher} {p : Pattern} {o : Options} {l : Locale} {compileLimits : CompileLimits}

/-- A match is derived from the tree, and every group is reported as it is held in the end. -/
theorem derives_of_print (hw : p.Writable) (hgroups : p.entersGroups = true)
    (ho : o.dialect = .extended) (hc : Program.compile o l compileLimits p.print = .ok m.program)
    (hl : m.locale = l) {limits : SearchLimits} {start capture : Nat} {caps : Captures}
    (h : m.execute limits start capture = .ok (some caps)) :
    ∃ held, Derives (m.reading ⟨o, l, compileLimits.run⟩) (.alts p 1)
        ⟨caps.whole.start, fun _ => none⟩ ⟨caps.whole.stop, held⟩ ∧
      caps.spans = (some caps.whole :: (List.range' 1 p.groupCount).map held).take
        (max (m.captureLimit capture) 1) := by
  obtain ⟨hproper, hm⟩ := Program.of_print hw ho hc
  exact derives_of_execute hm hl hproper hgroups h

def echo : Pattern :=
  .group (.leaf (.char 'a') .once (.bar (.leaf (.char 'b') .once .done))) .star
    (.leaf (.backRef 1) .once .done)

def echoIn (cs : List Char) : Matcher :=
  ⟨.ofPattern ⟨{ dialect := .extended }, .posix, 255⟩ echo, .posix, .ofList cs, {}⟩

theorem derives_of_print_echo :
    ∃ held, Derives ((echoIn ['a', 'b', 'b']).reading ⟨{ dialect := .extended }, .posix, 255⟩)
        (.alts echo 1) ⟨0, fun _ => none⟩ ⟨3, held⟩ ∧
      [some ⟨0, 3⟩, some ⟨1, 2⟩] = (some ⟨0, 3⟩ :: (List.range' 1 1).map held).take 2 :=
  derives_of_print (m := echoIn ['a', 'b', 'b']) (p := echo) (o := { dialect := .extended })
    ⟨⟨trivial, trivial, trivial⟩, ⟨by decide, by decide⟩, trivial⟩ rfl rfl
    (show Program.compile _ .posix {} _ = _ by decide) rfl
    (show (echoIn ['a', 'b', 'b']).execute {} 0 2 = .ok (some ⟨[some ⟨0, 3⟩, some ⟨1, 2⟩]⟩) by
      decide +kernel)

/-- A search for a regular tree succeeds wherever a word of its language stands. -/
theorem search_of_mem_language (hw : p.Writable) (hp : p.isRegular = true)
    (ho : o.dialect = .extended) (hc : Program.compile o l compileLimits p.print = .ok m.program)
    (hl : m.locale = l) {limits : SearchLimits} {fuel pos next : Nat} {w : List Char}
    (hspells : m.subject.Spells pos next w) (hword : w ∈ p.language o l 1)
    (hlimit : (m.search limits fuel pos).hitsLimit = false) :
    ∃ found, (m.search limits fuel pos).result = .ok (some found) := by
  obtain ⟨hproper, hm⟩ := Program.of_print hw ho hc
  have hdescribes : (m.reading ⟨o, l, compileLimits.run⟩).Describes (.alts p 1) w :=
    Reading.describes_pattern hp (by rw [← hl] at hword; exact hword)
  obtain ⟨held, hd⟩ := hdescribes pos next (fun _ => none) hspells
  have horderly : p.isOrderly p.refs 1 = true := by
    rw [Pattern.refs_of_isRegular hp]
    exact Pattern.isOrderly_of_isRegular hp
  obtain ⟨slots, hwalk⟩ := walk_of_derives hm hl hproper horderly hspells.isBoundary hd
  obtain ⟨stop, result, haccept, hplay, hf⟩ := play_start hm pos
  have hanswer := search_answer (hm ▸ Program.joinsForward_ofPattern _ p) hplay hlimit
  cases result with
  | none =>
    have hend := play_of_walk hm haccept hwalk
    rw [hf.complete rfl hwalk] at hend
    cases hend
  | some found =>
    refine ⟨found, ?_⟩
    unfold Ended.answer? at hanswer
    split at hanswer
    · rename_i hresult
      cases hanswer
      exact hresult
    · cases hanswer
    · cases hanswer

def padded : Pattern :=
  .group (.leaf (.char 'a') .optional .done) (.between 2 2) (.leaf (.char 'b') .once .done)

def paddedIn (cs : List Char) : Matcher :=
  ⟨.ofPattern ⟨{ dialect := .extended }, .posix, 255⟩ padded, .posix, .ofList cs, {}⟩

theorem search_of_mem_language_padded :
    ∃ found, ((paddedIn ['a', 'b']).search {} 100 0).result = .ok (some found) := by
  have hchar : ∀ c, [c] ∈ (Leaf.char c).language { dialect := .extended } .posix :=
    fun c => ⟨c, rfl, Or.inl rfl⟩
  have hempty : [] ∈ Pattern.language { dialect := .extended } .posix 1
      (.leaf (.char 'a') .optional .done) :=
    ⟨[], rfl, [], ⟨0, ⟨by decide, by simp⟩, rfl⟩, rfl⟩
  have hone : ['a'] ∈ Pattern.language { dialect := .extended } .posix 1
      (.leaf (.char 'a') .optional .done) := by
    refine ⟨[], rfl, ['a'], ⟨1, ⟨by decide, by rintro n ⟨⟩; decide⟩, ?_⟩, rfl⟩
    rw [pow_one]
    exact hchar 'a'
  have hword : ['a', 'b'] ∈ padded.language { dialect := .extended } .posix 1 := by
    refine ⟨['a'], ⟨[], rfl, ['a'], ⟨2, ⟨by decide, by rintro n ⟨⟩; decide⟩, ?_⟩, rfl⟩, ['b'],
      ⟨1, ⟨by decide, by rintro n ⟨⟩; decide⟩, ?_⟩, rfl⟩
    · rw [pow_two]
      exact ⟨['a'], hone, [], hempty, rfl⟩
    · rw [pow_one]
      exact hchar 'b'
  exact search_of_mem_language (m := paddedIn ['a', 'b']) (p := padded)
    (o := { dialect := .extended }) ⟨⟨trivial, trivial⟩, trivial, trivial⟩ rfl rfl
    (show Program.compile _ .posix {} _ = _ by decide) rfl
    (show (paddedIn ['a', 'b']).subject.Spells 0 2 ['a', 'b'] from ⟨[], [], rfl, rfl, rfl⟩) hword
    (by decide +kernel)

end Matcher

end PosixRegex
