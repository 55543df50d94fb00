import LetLang.Proofs.Lexing.Division

namespace LetLang

namespace Piece

/-- Blanks and comments, each comment with the line feed that closes it. -/
inductive IsLayout : List Char → Prop
  | nil : IsLayout []
  | blank {c : Char} {cs : List Char} (h : isBlank c = true) (others : IsLayout cs) :
    IsLayout (c :: cs)
  | comment {text cs : List Char} (line : '\n' ∉ text) (others : IsLayout cs) :
    IsLayout ('/' :: '/' :: (text ++ '\n' :: cs))

/-- Layout that keeps tokens apart. -/
structure IsSeparator (cs : List Char) : Prop where
  layout : IsLayout cs
  first : ∃ c ∈ cs.head?, isBlank c = true

def isSilent : Piece → Bool
  | .blank _ | .comment _ => true
  | _ => false

/-- Layout is cut into pieces of its own. -/
theorem IsLayout.exists_pieces {gap : List Char} (h : IsLayout gap) :
    ∃ ps : List Piece, ps.flatMap text = gap ∧ (∀ p ∈ ps, p.isSilent = true) ∧
      ∀ rest qs, IsDivision rest qs → IsDivision (gap ++ rest) (ps ++ qs) := by
  induction h with
  | nil => exact ⟨[], rfl, List.forall_mem_nil _, fun _ _ h => h⟩
  | @blank c cs hc others ih =>
    obtain ⟨ps, htext, hsilent, hdivision⟩ := ih
    refine ⟨.blank c :: ps, by rw [List.flatMap_cons, htext]; rfl,
      List.forall_mem_cons.2 ⟨rfl, hsilent⟩, fun rest qs h => ?_⟩
    exact .cons (.blank hc) (hdivision rest qs h)
  | @comment text cs line others ih =>
    obtain ⟨ps, htext, hsilent, hdivision⟩ := ih
    refine ⟨.comment ('/' :: '/' :: text) :: .blank '\n' :: ps, ?_, ?_, fun rest qs h => ?_⟩
    · simp [htext, Piece.text]
    · exact List.forall_mem_cons.2 ⟨rfl, List.forall_mem_cons.2 ⟨rfl, hsilent⟩⟩
    · have hblank := IsDivision.cons (p := .blank '\n') (.blank rfl) (hdivision rest qs h)
      have hcomment := IsDivision.cons (.comment line (by simp [Piece.text])) hblank
      simpa [Piece.text] using hcomment

theorem placed_append (before : List Char) (ps qs : List Piece) :
    placed before (ps ++ qs) = placed before ps ++ placed (before ++ ps.flatMap text) qs := by
  induction ps generalizing before with
  | nil => simp [placed]
  | cons p ps ih => simp [placed, ih]

/-- Silent pieces are no tokens and no errors. -/
theorem token?_of_isSilent {p : Piece} (h : p.isSilent = true) (line : Nat) :
    token? (line, p) = none := by
  cases p <;> first | rfl | cases h

theorem report?_of_isSilent {p : Piece} (h : p.isSilent = true) (line : Nat) :
    report? (line, p) = none := by
  cases p <;> first | rfl | cases h

theorem placed_of_silent {α : Type} {f : List Char × Piece → Option α}
    (hf : ∀ x, x.2.isSilent = true → f x = none) {ps : List Piece}
    (h : ∀ p ∈ ps, p.isSilent = true) (before : List Char) :
    (placed before ps).filterMap f = [] := by
  induction ps generalizing before with
  | nil => rfl
  | cons p ps ih =>
    rw [List.forall_mem_cons] at h
    rw [placed, List.filterMap_cons, hf _ h.1, ih h.2]

theorem goesOn_blank {c : Char} (h : isBlank c = true) (kind : TokenKind) :
    kind.goesOn c = false := by
  simp only [isBlank, Bool.or_eq_true, beq_iff_eq] at h
  obtain ((rfl | rfl) | rfl) | rfl := h <;> cases kind <;> rfl

end Piece

namespace Token
open Piece

/-- A token with a text of its kind, and with the meaning of that text. -/
def IsSpelled (t : Token) : Prop :=
  ∃ text, t.kind.Spells text ∧ t.lexeme = .str (String.ofList text) ∧ t.kind.Means text t.literal

/-- The text of tokens with a gap before each of them. -/
def written (items : List (List Char × Token)) : List Char :=
  items.flatMap fun x => x.1 ++ x.2.text.toList

/-- The tokens on the lines that they are written on. -/
def located (before : List Char) : List (List Char × Token) → List Token
  | [] => []
  | (gap, t) :: items =>
    { t with line := (1 + (before ++ gap).count '\n' : Nat) } ::
      located (before ++ gap ++ t.text.toList) items

variable {items : List (List Char × Token)} {last : List Char}

theorem head?_written (apart : ∀ x ∈ items, IsSeparator x.1)
    (ending : last = [] ∨ IsSeparator last) :
    ∀ c ∈ (written items ++ last).head?, isBlank c = true := by
  intro c hc
  cases items with
  | nil =>
    obtain rfl | ⟨-, d, hd, hb⟩ := ending
    · cases hc
    · cases hc.symm.trans hd
      exact hb
  | cons x items =>
    obtain ⟨-, d, hd, hb⟩ := (List.forall_mem_cons.1 apart).1
    obtain ⟨gap, hgap⟩ := List.head?_eq_some_iff.1 hd
    rw [written, List.flatMap_cons, hgap] at hc
    cases hc
    exact hb

/-- The division of a text that was written. -/
theorem exists_division (spelled : ∀ x ∈ items, x.2.IsSpelled)
    (gaps : ∀ x ∈ items, IsLayout x.1) (apart : ∀ x ∈ items.tail, IsSeparator x.1)
    (ending : last = [] ∨ IsSeparator last) (before : List Char) :
    ∃ ps, IsDivision (written items ++ last) ps ∧
      (placed before ps).filterMap (fun x => token? (1 + x.1.count '\n', x.2)) =
        located before items ∧
      (placed before ps).filterMap (fun x => report? (1 + x.1.count '\n', x.2)) = [] := by
  have htoken : ∀ x : List Char × Piece, x.2.isSilent = true →
      token? (1 + x.1.count '\n', x.2) = none := fun _ h => token?_of_isSilent h _
  have hreport : ∀ x : List Char × Piece, x.2.isSilent = true →
      report? (1 + x.1.count '\n', x.2) = none := fun _ h => report?_of_isSilent h _
  -- On the items, for any text before them, as that is what the line of a token depends on.
  induction items generalizing before with
  | nil =>
    have hlast : IsLayout last := ending.elim (fun h => h ▸ .nil) (·.layout)
    obtain ⟨ps, -, hsilent, hdivision⟩ := hlast.exists_pieces
    refine ⟨ps, ?_, placed_of_silent htoken hsilent before, placed_of_silent hreport hsilent before⟩
    simpa [written] using hdivision [] [] .nil
  | cons x items ih =>
    obtain ⟨gap, kind, lexeme, literal, line⟩ := x
    obtain ⟨⟨text, hspells, hlexeme, hmeans⟩, hspelled⟩ := List.forall_mem_cons.1 spelled
    obtain ⟨hgap, hgaps⟩ := List.forall_mem_cons.1 gaps
    dsimp only at hspells hlexeme hmeans hgap
    obtain rfl := hmeans.unique hspells.means_literal
    subst hlexeme
    obtain ⟨ps, hps, htokens, hreports⟩ := ih hspelled hgaps
      (fun x hx => apart x (List.mem_of_mem_tail hx)) (before ++ gap ++ text)
    obtain ⟨gs, hgs, hsilent, hdivision⟩ := hgap.exists_pieces
    -- The next item begins with a blank, so no token could go on into it.
    have hends : ∀ c ∈ (written items ++ last).head?, kind.goesOn c = false :=
      fun c hc => goesOn_blank (head?_written apart ending c hc) kind
    have htext : (Json.str (String.ofList text)).display.toList = text := String.toList_ofList
    refine ⟨gs ++ .token kind text :: ps, ?_, ?_, ?_⟩
    · have h := hdivision _ _ (.cons (.token hspells hends) hps)
      simpa [written, Token.text, htext, Piece.text] using h
    · rw [placed_append, List.filterMap_append, placed_of_silent htoken hsilent, hgs, placed,
        located, Token.text, htext, ← htokens]
      rfl
    · rw [placed_append, List.filterMap_append, placed_of_silent hreport hsilent, hgs, placed,
        List.filterMap_cons]
      exact hreports

end Token

open Piece in
/-- Lexing undoes writing. Tokens with layout between them, which begins with a blank each time, are
read without an error as they were written, each on the line after the line feeds before it. -/
theorem tokenize_written {items : List (List Char × Token)} {last : List Char}
    (spelled : ∀ x ∈ items, x.2.IsSpelled) (first : ∀ x ∈ items.head?, IsLayout x.1)
    (apart : ∀ x ∈ items.tail, IsSeparator x.1) (ending : last = [] ∨ IsSeparator last) :
    tokenize (String.ofList (Token.written items ++ last)) =
      ⟨Token.located [] items ++
        [.endOfInput (1 + (Token.written items ++ last).count '\n' : Nat)], []⟩ := by
  have gaps : ∀ x ∈ items, IsLayout x.1 := by
    cases items with
    | nil => exact List.forall_mem_nil _
    | cons x items => exact List.forall_mem_cons.2 ⟨first x rfl, fun y hy => (apart y hy).layout⟩
  obtain ⟨ps, hps, htokens, hreports⟩ := Token.exists_division spelled gaps apart ending []
  have htext := isDivision_iff.1 hps
  rw [← filterMap_numbered] at htokens hreports
  rw [tokenize, String.toList_ofList, ← htext]
  simp only [htokens, hreports]
  rfl

open Piece in
/-- A slash before a comment, the other spelling of the caret, a string on two lines and a number
with an underscore. -/
theorem tokenize_written_lines :
    tokenize "/ //*\n** \x22a\nb\x22\n1_0 " =
      ⟨[⟨.slash, .str "/", .null, 1⟩, ⟨.caret, .str "**", .null, 2⟩,
        ⟨.string, .str "\x22a\nb\x22", .str "a\nb", 2⟩, ⟨.number, .str "1_0", .int 10, 4⟩,
        .endOfInput 4], []⟩ := by
  have comment : IsSeparator [' ', '/', '/', '*', '\n'] :=
    ⟨.blank rfl (@IsLayout.comment ['*'] [] (by decide) .nil), ' ', rfl, rfl⟩
  have space : IsSeparator [' '] := ⟨.blank rfl .nil, ' ', rfl, rfl⟩
  have lineFeed : IsSeparator ['\n'] := ⟨.blank rfl .nil, '\n', rfl, rfl⟩
  have h := @tokenize_written
    [([], ⟨.slash, .str "/", .null, 9⟩),
      ([' ', '/', '/', '*', '\n'], ⟨.caret, .str "**", .null, 9⟩),
      ([' '], ⟨.string, .str "\x22a\nb\x22", .str "a\nb", 9⟩),
      (['\n'], ⟨.number, .str "1_0", .int 10, 9⟩)] [' '] ?_ ?_ ?_ (.inr space)
  · exact h
  · simp only [List.forall_mem_cons]
    refine ⟨⟨['/'], .sign (by decide), rfl, rfl⟩, ⟨['*', '*'], .sign (by decide), rfl, rfl⟩,
      ⟨_, @TokenKind.Spells.string ['a', '\n', 'b'] (by decide), rfl, _, rfl, rfl⟩,
      ⟨['1', '_', '0'], .number (List.all_eq_true.1 rfl) ⟨'1', List.mem_cons_self, by decide⟩
        (by decide), rfl, rfl⟩, List.forall_mem_nil _⟩
  · rintro _ ⟨⟩
    exact .nil
  · simp only [List.tail_cons, List.forall_mem_cons]
    exact ⟨comment, space, lineFeed, List.forall_mem_nil _⟩

end LetLang
