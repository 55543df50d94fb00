import LetLang.Proofs.Lexing.Scan
import LetLang.Proofs.Number.Bounds

namespace LetLang

namespace Piece

/-- A piece that a text can be cut into. -/
def IsSound : Piece → Prop
  | .token kind text =>
    kind ≠ .eof ∧ (kind = .number → isNumber text = true ∧ ∀ c ∈ text, isDigit c = true)
  | .badNumber text => isNumber text = false
  | _ => True

theorem isSound_word (word : String) (text : List Char) :
    (Piece.token (.ofWord word) text).IsSound :=
  TokenKind.ofWord_induction (P := fun kind => (Piece.token kind text).IsSound) (by simp [IsSound])
    (by simp [IsSound, TokenKind.keywords]) word

theorem isSound_cutNumber {c : Char} (h : isDigit c = true) (cs : List Char) :
    (cutNumber c cs).1.IsSound := by
  have hd : ∀ d ∈ c :: cs.takeWhile isDigit, isDigit d = true :=
    List.forall_mem_cons.2 ⟨h, List.all_eq_true.1 List.all_takeWhile⟩
  unfold cutNumber
  dsimp only
  split
  · next hn => exact ⟨by decide, fun _ => ⟨hn, hd⟩⟩
  · next hn => simpa [IsSound] using hn

theorem isSound_cut (c : Char) (cs : List Char) : (cut c cs).1.IsSound := by
  unfold cut
  split
  · next kind h =>
    unfold single? at h
    split at h <;> cases h <;> simp [IsSound]
  · next pair _ h =>
    rw [Strict.cutPair_eq]
    unfold pair? at h
    split at h <;> cases h <;> split <;> simp [IsSound]
  · split
    · unfold cutSlash
      split <;> simp [IsSound]
    split
    · unfold cutString
      dsimp only
      split <;> simp [IsSound]
    split
    · exact True.intro
    split
    · next hd => exact isSound_cutNumber hd cs
    split
    · exact isSound_word _ _
    · exact True.intro

theorem forall_mem_ofSource {P : Piece → Prop} (h : ∀ c cs, P (cut c cs).1) (cs : List Char) :
    ∀ p ∈ ofSource cs, P p := by
  obtain ⟨n, hn⟩ : ∃ n, cs.length ≤ n := ⟨_, Nat.le_refl _⟩
  induction n generalizing cs with
  | zero =>
    have hc : cs = [] := List.length_eq_zero_iff.1 (Nat.le_zero.1 hn)
    subst hc
    exact List.forall_mem_nil _
  | succ n ih =>
    cases cs with
    | nil => exact List.forall_mem_nil _
    | cons c cs =>
      have hl := length_cut c cs
      rw [ofSource_cons, List.forall_mem_cons]
      exact ⟨h c cs, ih _ (by omega)⟩

theorem isSound_of_mem {cs : List Char} {p : Piece} (h : p ∈ ofSource cs) : p.IsSound :=
  forall_mem_ofSource isSound_cut cs p h

theorem exists_of_mem_numbered {line : Nat} {ps : List Piece} {x : Nat × Piece}
    (h : x ∈ numbered line ps) :
    x.2 ∈ ps ∧ line ≤ x.1 ∧ x.1 ≤ line + lineFeeds (ps.flatMap text) := by
  induction ps generalizing line with
  | nil => cases h
  | cons p ps ih =>
    have hf : lineFeeds ((p :: ps).flatMap text) = lineFeeds p.text + lineFeeds (ps.flatMap text) :=
      List.count_append
    obtain rfl | h := List.mem_cons.1 h
    · exact ⟨List.mem_cons_self .., Nat.le_refl _, Nat.le_add_right ..⟩
    · obtain ⟨hm, hl, hr⟩ := ih h
      exact ⟨List.mem_cons_of_mem _ hm, by omega, by omega⟩

theorem exists_mem_numbered (line : Nat) {ps : List Piece} {p : Piece} (h : p ∈ ps) :
    ∃ l, (l, p) ∈ numbered line ps := by
  induction ps generalizing line with
  | nil => cases h
  | cons q ps ih =>
    obtain rfl | h := List.mem_cons.1 h
    · exact ⟨line, List.mem_cons_self ..⟩
    · obtain ⟨l, hl⟩ := ih (line + lineFeeds q.text) h
      exact ⟨l, List.mem_cons_of_mem _ hl⟩

/-- Pieces without an error are taken for their tokens. -/
theorem unchecked_of_no_errors {line : Nat} {ps : List Piece} (h : ∀ p ∈ ps, p.error? = none) :
    unchecked line ps = (numbered line ps).filterMap token? := by
  induction ps generalizing line with
  | nil => rfl
  | cons p ps ih =>
    rw [List.forall_mem_cons] at h
    rw [unchecked_cons, ih h.2, numbered, List.filterMap_cons]
    cases p with
    | token kind text | blank c | comment text => rfl
    | stray c | badNumber text | openString text => cases h.1

theorem reports_eq_nil_iff {line : Nat} {ps : List Piece} :
    (numbered line ps).filterMap report? = [] ↔ ∀ p ∈ ps, p.error? = none := by
  induction ps generalizing line with
  | nil => simp [numbered]
  | cons p ps ih =>
    rw [numbered, List.filterMap_cons, List.forall_mem_cons, ← @ih (line + lineFeeds p.text)]
    cases h : p.error? <;> simp [report?, h]

/-- A piece without an error is taken by the terminals, unless its token is none of theirs. -/
theorem isSome_terminal? {p : Piece} (h : p.error? = none)
    (hk : ∀ kind text, p = .token kind text → kind ≠ .dot ∧ kind ≠ .colon ∧ kind ≠ .questionMark) :
    p.terminal?.isSome = true := by
  cases p with
  | token kind text =>
    have := hk kind text rfl
    cases kind <;> simp_all [terminal?]
  | blank c | comment text => rfl
  | stray c | badNumber text | openString text => cases h

/-- A piece that the terminals take has no error, unless it is a number that is none. -/
theorem error?_of_isSome {p : Piece} (h : p.terminal?.isSome = true)
    (hn : ∀ text, p ≠ .badNumber text) : p.error? = none := by
  cases p with
  | token kind text | blank c | comment text => rfl
  | badNumber text => exact absurd rfl (hn text)
  | stray c | openString text => cases h

end Piece

/-- A token with the meaning of its text. -/
structure Token.IsRead (t : Token) : Prop where
  text : ∃ text, t.lexeme = .str (String.ofList text) ∧ t.literal = Piece.literal t.kind text
  kind : t.kind ≠ .eof

/-- Is the token a number with an admissible text, if it is a number? -/
def Token.isGoodNumber (t : Token) : Prop := t.kind = .number → Piece.isNumber t.text.toList = true

namespace Piece

theorem mem_unchecked_iff {line : Nat} {ps : List Piece} {t : Token} :
    t ∈ unchecked line ps ↔ ∃ x ∈ numbered line ps, unchecked? x = some t :=
  List.mem_filterMap

theorem isRead_of_mem {cs : List Char} {t : Token} (h : t ∈ unchecked 1 (ofSource cs)) :
    t.IsRead := by
  obtain ⟨⟨line, p⟩, hx, ht⟩ := mem_unchecked_iff.1 h
  have hs := isSound_of_mem (exists_of_mem_numbered hx).1
  cases p with
  | token kind text =>
    cases ht
    exact ⟨⟨text, rfl, rfl⟩, hs.1⟩
  | badNumber text =>
    cases ht
    exact ⟨⟨text, rfl, rfl⟩, nofun⟩
  | blank c | comment text | stray c | openString text => cases ht

/-- Numbers are admissible exactly where no piece is a number that is none. -/
theorem good_numbers_iff {cs : List Char} :
    (∀ t ∈ unchecked 1 (ofSource cs), t.isGoodNumber) ↔
      ∀ p ∈ ofSource cs, ∀ text, p ≠ .badNumber text := by
  constructor
  · rintro h _ hp text rfl
    obtain ⟨l, hl⟩ := exists_mem_numbered 1 hp
    have hg := h _ (mem_unchecked_iff.2 ⟨_, hl, rfl⟩) rfl
    have hs : isNumber text = false := isSound_of_mem hp
    rw [Token.text, Json.display, String.toList_ofList, hs] at hg
    cases hg
  · intro h t ht hk
    obtain ⟨⟨line, p⟩, hx, ht⟩ := mem_unchecked_iff.1 ht
    have hp := (exists_of_mem_numbered hx).1
    have hs := isSound_of_mem hp
    cases p with
    | token kind text =>
      cases ht
      rw [Token.text, Json.display, String.toList_ofList]
      exact (hs.2 hk).1
    | badNumber text => exact absurd rfl (h _ hp text)
    | blank c | comment text | stray c | openString text => cases ht

end Piece

/-- A token with a text for its lexeme, a value that it may stand for, and a line of the text. -/
structure Token.IsLexed (text : String) (t : Token) : Prop where
  lexeme : ∃ s, t.lexeme = .str s
  number : t.kind = .number → ∃ n, t.literal = .int n ∧ Number.InRange n
  string : t.kind = .string → ∃ s, t.literal = .str s
  line : 1 ≤ t.line ∧ t.line ≤ 1 + text.toList.count '\n'

theorem Piece.isLexed_of_mem {text : String} {line : Nat} {kind : TokenKind} {chars : List Char}
    (h : (line, .token kind chars) ∈ numbered 1 (ofSource text.toList)) :
    Token.IsLexed text ⟨kind, .str (String.ofList chars), literal kind chars, line⟩ := by
  obtain ⟨hp, hl, hr⟩ := exists_of_mem_numbered h
  rw [texts_ofSource, lineFeeds] at hr
  refine ⟨⟨_, rfl⟩, ?_, ?_, ?_⟩
  · rintro rfl
    obtain ⟨hn, hd⟩ := (isSound_of_mem hp).2 rfl
    exact ⟨_, rfl, Number.inRange_numberValue hd hn⟩
  · rintro rfl
    exact ⟨_, rfl⟩
  · dsimp only at hl hr ⊢
    omega

theorem isLexed_of_mem {text : String} {t : Token} (h : t ∈ (tokenize text).tokens) :
    t.IsLexed text := by
  rw [tokenize, List.mem_append, List.mem_filterMap, List.mem_singleton] at h
  obtain ⟨⟨line, p⟩, hx, ht⟩ | rfl := h
  · cases p with
    | token kind chars =>
      cases ht
      exact Piece.isLexed_of_mem hx
    | blank c | comment text | stray c | badNumber text | openString text => cases ht
  · refine ⟨⟨_, rfl⟩, nofun, nofun, ?_⟩
    simp only [Token.endOfInput, Piece.endLine, Piece.lineFeeds]
    omega

end LetLang
