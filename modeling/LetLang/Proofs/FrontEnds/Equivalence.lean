import LetLang.Source
import LetLang.Proofs.FrontEnds.Meaning

namespace LetLang

open Strict Piece

/-- The tokens of a text when numbers are not looked at closely. -/
def uncheckedTokens (text : String) : List Token := unchecked 1 (ofSource text.toList)

theorem isRead_uncheckedTokens (text : String) : ∀ t ∈ uncheckedTokens text, t.IsRead :=
  fun _ => isRead_of_mem

theorem parse_eq_ok_iff {text : String} {q : List Node} :
    Strict.parse text = .ok q ↔ (scan text.toList 1 text.toList).2 = .complete ∧
      ∃ trees ms, readProgram (scan text.toList 1 text.toList).1 = .ok trees ∧
        meanings trees = .ok ms ∧ q = programOf ms := by
  rw [Strict.parse]
  obtain ⟨tokens, ending⟩ := scan text.toList 1 text.toList
  cases hr : readProgram tokens with
  | error rest => simp [hr]
  | ok trees =>
    cases ending with
    | badCharacter line c => simp [hr]
    | complete => cases hm : meanings trees <;> simp [hr, hm, Except.map, eq_comm]

theorem plain_kind (t : Token) : t.plain.kind = t.kind := rfl

/-- What the strict front end makes of a tree once the lexemes have been looked at. -/
theorem meanings_of_isTreeOf {text : String} {tree : Tree}
    (h : IsTreeOf tree (uncheckedTokens text)) :
    meanings [tree.map Token.plain] = firstOf tree.defects [tree.ast] := by
  have hm := h.derives.meanings_plain rfl rfl (isRead_uncheckedTokens text)
    (by rw [elsesNearestAll, h.nearest]; rfl)
  simpa [Translates, mapAll, defectsAll, astAll] using hm

theorem defects_eq_nil_iff {us : List Token} {tree : Tree} (h : IsTreeOf tree us) :
    tree.defects = [] ↔ (∀ t ∈ us, t.isGoodNumber) ∧ tree.badTargets = [] := by
  have hd : (∀ t ∈ us, t.isGoodNumber) → tree.defects = tree.badTargets.map badTarget := by
    intro hg
    simpa [defectsAll, badTargetsAll] using h.derives.defects_of_good hg
  constructor
  · intro hn
    have hg := h.derives.good_of_defects rfl (by simpa [defectsAll] using hn)
    rw [hd hg] at hn
    exact ⟨hg, List.map_eq_nil_iff.1 hn⟩
  · rintro ⟨hg, hb⟩
    rw [hd hg, hb]
    rfl

/-- What the strict front end accepts. -/
theorem strict_parse_eq_ok_iff {text : String} {q : List Node} :
    Strict.parse text = .ok q ↔ (∀ p ∈ ofSource text.toList, p.terminal?.isSome = true) ∧
      (∀ t ∈ uncheckedTokens text, t.isGoodNumber) ∧
      ∃ tree, IsTreeOf tree (uncheckedTokens text) ∧ tree.badTargets = [] ∧ q = tree.statements := by
  rw [parse_eq_ok_iff, scan_complete_iff]
  refine and_congr_right fun hp => ?_
  rw [scan_tokens hp]
  constructor
  · rintro ⟨_, ms, hr, hm, rfl⟩
    obtain ⟨_, rfl, hmap⟩ := readProgram_eq_ok_iff.1 hr
    obtain ⟨tree, rfl, ht⟩ := (isTreeOf_map_iff plain_kind).1 hmap
    rw [meanings_of_isTreeOf ht, firstOf_eq_ok_iff, defects_eq_nil_iff ht] at hm
    obtain ⟨⟨hg, hb⟩, rfl⟩ := hm
    exact ⟨hg, tree, ht, hb, rfl⟩
  · rintro ⟨hg, tree, ht, hb, rfl⟩
    refine ⟨[tree.map Token.plain], [tree.ast], ?_, ?_, rfl⟩
    · exact readProgram_eq_ok_iff.2 ⟨_, rfl, (isTreeOf_map_iff plain_kind).2 ⟨tree, rfl, ht⟩⟩
    · rw [meanings_of_isTreeOf ht, firstOf_eq_ok_iff, defects_eq_nil_iff ht]
      exact ⟨⟨hg, hb⟩, rfl⟩

theorem tokens_of_no_errors {text : String} (h : ∀ p ∈ ofSource text.toList, p.error? = none) :
    (tokenize text).tokens =
      uncheckedTokens text ++ [.endOfInput (Piece.endLine text.toList)] := by
  rw [tokenize, uncheckedTokens, unchecked_of_no_errors h]

theorem lexical_eq_nil_iff (text : String) :
    (Source.ofText text).lexical = [] ↔ ∀ p ∈ ofSource text.toList, p.error? = none :=
  reports_eq_nil_iff

/-- With no error in its pieces a text is parsed from the tokens that the strict front end has. -/
theorem parse_of_no_errors {text : String} (h : ∀ p ∈ ofSource text.toList, p.error? = none) :
    (Source.ofText text).program = (Parser.program (uncheckedTokens text)).1 ∧
      (Source.ofText text).syntactic = (Parser.program (uncheckedTokens text)).2.map
        (·.report (Parser.endLine (tokenize text).tokens)) := by
  have hb : Parser.body (tokenize text).tokens = uncheckedTokens text := by
    rw [tokens_of_no_errors h]
    exact Parser.body_append (fun t ht => (isRead_uncheckedTokens text t ht).kind) rfl
  rw [Source.ofText, Parser.parse, hb]
  exact ⟨rfl, rfl⟩

theorem isSome_terminal?_of_isTreeOf {text : String} {tree : Tree}
    (h : ∀ p ∈ ofSource text.toList, p.error? = none) (ht : IsTreeOf tree (uncheckedTokens text)) :
    ∀ p ∈ ofSource text.toList, p.terminal?.isSome = true := by
  intro p hp
  refine isSome_terminal? (h p hp) ?_
  rintro kind text' rfl
  obtain ⟨line, hl⟩ := exists_mem_numbered 1 hp
  have hm := mem_unchecked_iff.2 ⟨_, hl, rfl⟩
  refine ⟨?_, ?_, ?_⟩
  · exact ht.derives.kind_ne (by intro r; cases r <;> rfl) rfl _ hm
  · exact ht.derives.kind_ne (by intro r; cases r <;> rfl) rfl _ hm
  · exact ht.derives.kind_ne (by intro r; cases r <;> rfl) rfl _ hm

theorem message_of_isDepth {e : SyntaxError} (h : e.isDepth = true) :
    e.message = "Expression nests too deeply." ∨ e.message = "Statement nests too deeply." := by
  cases e <;> first | exact .inl rfl | exact .inr rfl | cases h

/-- The two front ends agree: a text without a report is accepted by the strict front end with the
same program; and a program that the strict front end accepts is found without a report, unless
the first report is about its nesting. -/
theorem front_ends_agree (text : String) :
    ((Source.ofText text).reports = [] → Strict.parse text = .ok (Source.ofText text).program) ∧
    ∀ q, Strict.parse text = .ok q →
      ((Source.ofText text).reports = [] ∧ (Source.ofText text).program = q) ∨
      ∃ first others, (Source.ofText text).reports = first :: others ∧
        (first.message = "Expression nests too deeply." ∨
          first.message = "Statement nests too deeply.") := by
  constructor
  · -- without a report there is a tree of the grammar, and the strict front end finds it
    intro h
    rw [Source.reports, List.append_eq_nil_iff, lexical_eq_nil_iff] at h
    obtain ⟨hl, hs⟩ := h
    obtain ⟨hprogram, hsyntactic⟩ := parse_of_no_errors hl
    rw [hsyntactic, List.map_eq_nil_iff, Parser.program_clean_iff] at hs
    obtain ⟨tree, ht, hb, hn⟩ := hs
    rw [hprogram, (Parser.program_of_isTreeOf ht hn).1]
    refine strict_parse_eq_ok_iff.2 ⟨isSome_terminal?_of_isTreeOf hl ht, ?_, tree, ht, hb, rfl⟩
    refine good_numbers_iff.2 ?_
    rintro _ hp text' rfl
    cases hl _ hp
  · intro q hq
    obtain ⟨hp, hg, tree, ht, hb, rfl⟩ := strict_parse_eq_ok_iff.1 hq
    have hl : ∀ p ∈ ofSource text.toList, p.error? = none :=
      fun p hm => error?_of_isSome (hp p hm) (good_numbers_iff.1 hg p hm)
    obtain ⟨hprogram, hsyntactic⟩ := parse_of_no_errors hl
    rw [Source.reports, (lexical_eq_nil_iff text).2 hl, List.nil_append, hprogram, hsyntactic]
    obtain ⟨hc, hs⟩ | ⟨c, after, hc, he⟩ := Parser.program_of_good_targets ht hb
    · exact .inl ⟨by rw [hc]; rfl, hs⟩
    · refine .inr ⟨_, _, by rw [hc]; rfl, ?_⟩
      rw [Parser.message_report]
      exact message_of_isDepth he

end LetLang
