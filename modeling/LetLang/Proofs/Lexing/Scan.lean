import LetLang.Proofs.Lexing.Longest

namespace LetLang

namespace Piece

theorem cutAll_eq {bound cs : List Char} (h : cs.length ≤ bound.length) :
    cutAll bound cs = ofSource cs := by
  -- Two bounds are compared, neither of which needs to be the length of the text.
  suffices hb : ∀ {b c cs : List Char}, cs.length ≤ b.length → cs.length ≤ c.length →
      cutAll b cs = cutAll c cs from hb h (Nat.le_refl _)
  intro b
  induction b with
  | nil =>
    intro c cs h h'
    have hc : cs = [] := List.length_eq_zero_iff.1 (Nat.le_zero.1 h)
    subst hc
    cases c <;> rfl
  | cons first b ih =>
    intro c cs h h'
    cases cs with
    | nil => cases c <;> rfl
    | cons d cs =>
      cases c with
      | nil => simp at h'
      | cons first' c =>
        have hl := length_cut d cs
        simp only [List.length_cons] at h h' hl
        rw [cutAll, cutAll, ih (c := c) (by omega) (by omega)]

theorem ofSource_cons (c : Char) (cs : List Char) :
    ofSource (c :: cs) = (cut c cs).1 :: ofSource (cut c cs).2 := by
  have hl := length_cut c cs
  rw [ofSource, cutAll, cutAll_eq (Nat.le_of_lt_succ hl)]

theorem cut_of_isBlank {c : Char} (h : isBlank c = true) (cs : List Char) :
    cut c cs = (.blank c, cs) := by
  simp only [isBlank, Bool.or_eq_true, beq_iff_eq] at h
  obtain ((rfl | rfl) | rfl) | rfl := h <;> rfl

/-- The token that a piece is taken for when numbers are not looked at closely. -/
def unchecked? : Nat × Piece → Option Token
  | (line, .badNumber text) =>
    some ⟨.number, .str (String.ofList text), literal .number text, line⟩
  | p => token? p

/-- The tokens of the pieces from a line on. -/
def unchecked (line : Nat) (ps : List Piece) : List Token := (numbered line ps).filterMap unchecked?

theorem unchecked_cons (line : Nat) (p : Piece) (ps : List Piece) :
    unchecked line (p :: ps) =
      (unchecked? (line, p)).toList ++ unchecked (line + lineFeeds p.text) ps := by
  rw [unchecked, numbered, List.filterMap_cons]
  cases unchecked? (line, p) <;> rfl

end Piece

/-- The token as it is before its text is looked at. Only a name means its own text. -/
def Token.plain (t : Token) : Token :=
  { t with literal := if t.kind = .identifier then t.lexeme else .null }

namespace Strict
open Piece

/-- What the terminals make of pieces from a line on. -/
def scanPieces (line : Nat) : List Piece → List Token × Ending
  | [] => ([], .complete)
  | p :: ps =>
    match p.terminal? with
    | none => ([], .badCharacter line (p.text.headD ' '))
    | some kind =>
      let (tokens, ending) := scanPieces (line + lineFeeds p.text) ps
      (match kind with
        | some kind => tokenOf kind p.text line :: tokens
        | none => tokens, ending)

theorem scanPieces_blanks (line : Nat) (cs : List Char) :
    scanPieces line (ofSource cs) =
      scanPieces (line + lineFeeds (cs.takeWhile isBlank)) (ofSource (cs.dropWhile isBlank)) := by
  induction cs generalizing line with
  | nil => rfl
  | cons c cs ih =>
    by_cases hb : isBlank c = true
    · rw [ofSource_cons, cut_of_isBlank hb, List.takeWhile_cons_of_pos hb,
        List.dropWhile_cons_of_pos hb]
      simp only [scanPieces, terminal?, ih, Piece.text, lineFeeds, List.count_cons]
      simp [Nat.add_comm, Nat.add_left_comm]
    · rw [List.takeWhile_cons_of_neg hb, List.dropWhile_cons_of_neg hb]
      rfl

theorem scan_blank {c : Char} (hb : isBlank c = true) (b : Char) (bound : List Char) (line : Nat)
    (cs : List Char) :
    scan (b :: bound) line (c :: cs) =
      scan bound (line + lineFeeds (c :: cs.takeWhile isBlank)) (cs.dropWhile isBlank) := by
  have hcs : (c :: cs.takeWhile isBlank) ++ cs.dropWhile isBlank = c :: cs := by
    rw [List.cons_append, List.takeWhile_append_dropWhile]
  have hn : 1 + (cs.takeWhile isBlank).length = (c :: cs.takeWhile isBlank).length := by
    rw [List.length_cons, Nat.add_comm]
  rw [scan, longest_blank hb, hn]
  simp only [← hcs, List.take_left, List.drop_left]
  rfl

theorem scan_cut {c : Char} (hb : isBlank c = false) (b : Char) (bound : List Char) (line : Nat)
    (cs : List Char) :
    scan (b :: bound) line (c :: cs) =
      match (cut c cs).1.terminal? with
      | none => ([], .badCharacter line c)
      | some kind =>
        let (tokens, ending) := scan bound (line + lineFeeds (cut c cs).1.text) (cut c cs).2
        (match kind with
          | some kind => tokenOf kind (cut c cs).1.text line :: tokens
          | none => tokens, ending) := by
  have hcs := text_cut c cs
  rw [scan, longest_cut hb]
  cases (cut c cs).1.terminal? with
  | none => rfl
  | some kind =>
    simp only [Option.map_some]
    rw [← hcs, List.take_left, List.drop_left]
    rfl

theorem headD_text_cut (c : Char) (cs : List Char) (d : Char) : (cut c cs).1.text.headD d = c := by
  obtain ⟨e, rest, he⟩ := List.exists_cons_of_ne_nil (text_ne_nil c cs)
  have hcs := text_cut c cs
  rw [he, List.cons_append, List.cons.injEq] at hcs
  rw [he]
  exact hcs.1

theorem scan_eq {bound cs : List Char} (h : cs.length ≤ bound.length) (line : Nat) :
    scan bound line cs = scanPieces line (ofSource cs) := by
  induction bound generalizing cs line with
  | nil =>
    have hc : cs = [] := List.length_eq_zero_iff.1 (Nat.le_zero.1 h)
    subst hc
    rfl
  | cons b bound ih =>
    cases cs with
    | nil => rfl
    | cons c cs =>
      simp only [List.length_cons] at h
      by_cases hb : isBlank c = true
      · have hl := (List.dropWhile_suffix (l := cs) isBlank).length_le
        rw [scan_blank hb, scanPieces_blanks, List.takeWhile_cons_of_pos hb,
          List.dropWhile_cons_of_pos hb, ih (by omega)]
      · have hl := length_cut c cs
        simp only [List.length_cons] at hl
        rw [scan_cut (by simpa using hb), ofSource_cons, scanPieces, headD_text_cut, ih (by omega)]

theorem plain_unchecked? {p : Piece} {kind : Option TokenKind} (h : p.terminal? = some kind)
    (line : Nat) :
    (unchecked? (line, p)).toList.map Token.plain =
      (kind.map fun kind => tokenOf kind p.text line).toList := by
  cases p with
  | token k text => cases k <;> cases h <;> rfl
  | blank c | comment text | badNumber text =>
    cases h
    rfl
  | stray c | openString text => cases h

theorem scanPieces_complete_iff {line : Nat} {ps : List Piece} :
    (scanPieces line ps).2 = .complete ↔ ∀ p ∈ ps, p.terminal?.isSome = true := by
  induction ps generalizing line with
  | nil => simp [scanPieces]
  | cons p ps ih =>
    rw [scanPieces, List.forall_mem_cons, ← @ih (line + lineFeeds p.text)]
    cases p.terminal? <;> simp

/-- A complete scan takes every piece for its token. -/
theorem scanPieces_tokens {line : Nat} {ps : List Piece}
    (h : ∀ p ∈ ps, p.terminal?.isSome = true) :
    (scanPieces line ps).1 = (unchecked line ps).map Token.plain := by
  induction ps generalizing line with
  | nil => rfl
  | cons p ps ih =>
    rw [List.forall_mem_cons] at h
    obtain ⟨kind, hk⟩ := Option.isSome_iff_exists.1 h.1
    rw [scanPieces, hk, unchecked_cons, List.map_append, plain_unchecked? hk, ← ih h.2]
    cases kind <;> rfl

/-- The terminals take all of a text exactly if none of its pieces is an error that they notice. -/
theorem scan_complete_iff (cs : List Char) :
    (scan cs 1 cs).2 = .complete ↔ ∀ p ∈ ofSource cs, p.terminal?.isSome = true := by
  rw [scan_eq (Nat.le_refl _), scanPieces_complete_iff]

/-- Where they take all of it, they take it for the tokens of its pieces. -/
theorem scan_tokens {cs : List Char} (h : ∀ p ∈ ofSource cs, p.terminal?.isSome = true) :
    (scan cs 1 cs).1 = (unchecked 1 (ofSource cs)).map Token.plain := by
  rw [scan_eq (Nat.le_refl _), scanPieces_tokens h]

end Strict

end LetLang
