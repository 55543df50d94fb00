import LetLang.Proofs.FrontEnds.Layout
import LetLang.Proofs.Json.RoundTrip
import LetLang.Proofs.Lexing.Division
import LetLang.Proofs.Parsing.Recovery

namespace LetLang

/-- Nothing was reported, and this was shown and nothing else. -/
structure Step.Shows (step : Step) (item : String) : Prop where
  log : step.log = .empty
  stop : step.result.stop = none
  output : step.result.output = [item]

namespace Piece

theorem isDigit_of_mem_toDigits {n : Nat} {c : Char} (h : c ∈ Nat.toDigits 10 n) :
    isDigit c = true := by
  have hd : ('0' ≤ c && c ≤ '9') = true := Json.isDigit_of_mem_toDigits h
  rw [isDigit, hd, Bool.true_or]

theorem withoutUnderscores_toDigits (n : Nat) :
    withoutUnderscores (Nat.toDigits 10 n) = Nat.toDigits 10 n := by
  apply List.filter_eq_self.2
  intro c hc
  apply bne_iff_ne.2
  rintro rfl
  cases Json.isDigit_of_mem_toDigits hc

theorem isNumber_toDigits {n : Nat} (h : Number.InRange n) :
    isNumber (Nat.toDigits 10 n) = true := by
  have hl : (Nat.toDigits 10 n).length ≤ Number.maxDigits := (Number.inRange_iff_length n).1 h
  rw [isNumber, withoutUnderscores_toDigits]
  simp [hl]

theorem numberValue_toDigits (n : Nat) : numberValue (Nat.toDigits 10 n) = n := by
  rw [numberValue, withoutUnderscores_toDigits, Json.ofDigits_toDigits]

theorem ofSource_toDigits {n : Nat} (h : Number.InRange n) {rest : List Char}
    (ends : ∀ c ∈ rest.head?, isDigit c = false) :
    ofSource (Nat.toDigits 10 n ++ rest) = .token .number (Nat.toDigits 10 n) :: ofSource rest := by
  rw [ofSource_digits (Json.toDigits_ne_nil n) (fun _ => isDigit_of_mem_toDigits) ends,
    if_pos (isNumber_toDigits h)]

end Piece

namespace Parser

section
variable {deeper : Deeper} {ts rest : List Token} {e : Node} (hr : EndsExpression rest)
include hr

/-- With no operator behind it the first operand is all there is. -/
theorem chain_operand {operators : List TokenKind} {build : Node → Token → Node → Node}
    {operand : Parse Node} (ho : ∀ k ∈ operators, k ∈ expressionKinds)
    (h : operand ts = ⟨some e, rest, []⟩) :
    chain operators build operand ts = ⟨some e, rest, []⟩ := by
  have hstop : ∀ t ∈ rest.head?, t.kind ∉ operators := fun t ht hk => hr t ht (ho _ hk)
  rw [chain, bind_of_result_some h, lookahead_bind]
  cases rest with
  | nil => rfl
  | cons t rest =>
    rw [chainFrom, accept_bind_of_not_mem hstop]
    rfl

theorem expression_operand (h : unary deeper ts = ⟨some e, rest, []⟩) :
    expression deeper ts = ⟨some e, rest, []⟩ := by
  have hsum : sum deeper ts = ⟨some e, rest, []⟩ :=
    chain_operand hr (by decide) (chain_operand hr (by decide) h)
  have hequality : equality deeper ts = ⟨some e, rest, []⟩ :=
    chain_operand hr (by decide) (chain_operand hr (by decide) hsum)
  have hdisjunction : disjunction deeper ts = ⟨some e, rest, []⟩ :=
    chain_operand hr (by decide) (chain_operand hr (by decide) hequality)
  have hequal : ∀ t ∈ rest.head?, t.kind ∉ [TokenKind.equal] := by
    intro t ht hk
    apply hr t ht
    rw [List.mem_singleton.1 hk]
    decide
  apply chain_operand hr (by decide)
  rw [assignment, bind_of_result_some hdisjunction, lookahead_bind, accept_bind_of_not_mem hequal]
  rfl

end

/-- A program that only prints an operand. -/
theorem program_print {print semicolon : Token} {ts : List Token} {e : Node}
    (hp : print.kind = .kwPrint) (hs : semicolon.kind = .semicolon)
    (h : unary (deeperWithin maxNesting) (ts ++ [semicolon]) = ⟨some e, [semicolon], []⟩) :
    program (print :: (ts ++ [semicolon])) = ([.printStmt e], []) := by
  have hexpression := expression_operand (endsExpression_semicolon hs []) h
  have hstatement : exprStmt (deeperWithin maxNesting) .printStmt (ts ++ [semicolon]) =
      ⟨some (.printStmt e), [], []⟩ := by
    rw [exprStmt, bind_of_result_some hexpression, bind_of_result_some (expect_of_eq hs _ [])]
    rfl
  have hdeclaration : declaration (deeperWithin maxNesting) (print :: (ts ++ [semicolon])) =
      ⟨some (some (.printStmt e)), [], []⟩ := by
    rw [declaration, declarationOrFail_eq_statement _ (by simp [hp]), statement,
      accept_bind_of_mem (by simp [hp])]
    simp only [hp, hstatement]
  rw [program, declarations, hdeclaration]
  simp [declarations]

end Parser

namespace Value
open Piece

/-- The values that programs have expressions for. -/
inductive IsWritable : Value → Prop
  | bool (b : Bool) : IsWritable (.bool b)
  | int {n : Int} (h : Number.InRange n) : IsWritable (.int n)
  | str {s : String} (h : '\x22' ∉ s.toList) : IsWritable (.str s)

/-- The text of a value in a program: what is printed, and quotes around a string. -/
def written : Value → String
  | .str s => "\x22" ++ s ++ "\x22"
  | v => v.display

/-- The program that prints a value. -/
def printing (v : Value) : String := "print " ++ v.written ++ ";"

/-- What the text is cut into. The minus of a negative number is a token of its own. -/
def pieces : Value → List Piece
  | .bool true => [.token .kwTrue ['t', 'r', 'u', 'e']]
  | .bool false => [.token .kwFalse ['f', 'a', 'l', 's', 'e']]
  | .int n =>
    let size := Piece.token .number (Nat.toDigits 10 n.natAbs)
    if n < 0 then [.token .minus ['-'], size] else [size]
  | .str s => [.token .string ('\x22' :: (s.toList ++ ['\x22']))]
  | _ => []

def tokens (v : Value) : List Token := unchecked 1 v.pieces

/-- The minus of a negative number. -/
def sign : Token := ⟨.minus, .str "-", .null, 1⟩

/-- The expression that the text is read as. -/
def expression : Value → Node
  | .int n => if n < 0 then .unary sign (.literal (.int n.natAbs)) else .literal (.int n)
  | v => .literal v

variable {v : Value}

theorem ofSource_written (h : v.IsWritable) :
    ofSource (v.written.toList ++ [';']) = v.pieces ++ [.token .semicolon [';']] := by
  cases h with
  | bool b => cases b <;> rfl
  | @int n hn =>
    have hends : ∀ c ∈ [';'].head?, isDigit c = false := by
      rintro _ ⟨⟩
      rfl
    have hsize := ofSource_toDigits (n := n.natAbs) hn hends
    have hw : (Value.int n).written.toList = (toString n).toList := rfl
    rw [hw, Json.toList_toString, pieces]
    by_cases hneg : n < 0
    · rw [if_pos hneg, if_pos hneg, List.cons_append, ofSource_cons]
      exact congrArg (Piece.token .minus ['-'] :: ·) hsize
    · rw [if_neg hneg, if_neg hneg]
      exact hsize
  | @str s hs =>
    have hw : (Value.str s).written.toList = '\x22' :: (s.toList ++ ['\x22']) := by
      simp [written]
    rw [hw, ofSource_string hs]
    rfl

theorem ofSource_printing (h : v.IsWritable) : ofSource v.printing.toList =
    .token .kwPrint ['p', 'r', 'i', 'n', 't'] :: .blank ' ' ::
      (v.pieces ++ [.token .semicolon [';']]) := by
  have hl : v.printing.toList =
      ['p', 'r', 'i', 'n', 't'] ++ (' ' :: (v.written.toList ++ [';'])) := by
    simp [printing]
  have hword : IsWordText ['p', 'r', 'i', 'n', 't'] :=
    isWordText_of_keyword ("print", .kwPrint) (by decide)
  have hends : ∀ c ∈ (' ' :: (v.written.toList ++ [';'])).head?, isWordChar c = false := by
    rintro _ ⟨⟩
    rfl
  rw [hl, ofSource_word hword hends, ofSource_cons, cut_of_isBlank rfl, ofSource_written h]
  rfl

theorem uncheckedTokens_printing (h : v.IsWritable) :
    ∃ line, uncheckedTokens v.printing = ⟨.kwPrint, .str "print", .null, 1⟩ :: (v.tokens ++
      [⟨.semicolon, .str ";", .null, line⟩]) := by
  rw [uncheckedTokens, ofSource_printing h]
  cases h with
  | bool b => cases b <;> exact ⟨_, rfl⟩
  | @int n hn =>
    rw [tokens, pieces]
    split <;> exact ⟨_, rfl⟩
  | @str s hs => exact ⟨_, rfl⟩

theorem error?_of_mem_printing (h : v.IsWritable) :
    ∀ p ∈ ofSource v.printing.toList, p.error? = none := by
  have hpieces : ∀ p ∈ v.pieces, p.error? = none := by
    cases h with
    | bool b => cases b <;> exact List.forall_mem_singleton.2 rfl
    | @int n hn =>
      unfold pieces
      dsimp only
      split
      · exact List.forall_mem_cons.2 ⟨rfl, List.forall_mem_singleton.2 rfl⟩
      · exact List.forall_mem_singleton.2 rfl
    | str hs => exact List.forall_mem_singleton.2 rfl
  rw [ofSource_printing h]
  simp only [List.forall_mem_cons, List.forall_mem_append]
  exact ⟨rfl, rfl, hpieces, rfl, List.forall_mem_nil _⟩

theorem tokens_int (n : Int) : ∃ lexeme, (Value.int n).tokens =
    (if n < 0 then [sign] else []) ++ [⟨.number, lexeme, .int n.natAbs, 1⟩] := by
  have hnumber : Piece.literal .number (Nat.toDigits 10 n.natAbs) = .int n.natAbs :=
    congrArg Json.int (numberValue_toDigits n.natAbs)
  rw [tokens, pieces, ← hnumber]
  split <;> exact ⟨_, rfl⟩

theorem tokens_str (s : String) : ∃ lexeme,
    (Value.str s).tokens = [⟨.string, lexeme, .str s, 1⟩] := by
  have hinner : Piece.literal .string ('\x22' :: (s.toList ++ ['\x22'])) = .str s := by
    simp [Piece.literal]
  rw [← hinner]
  exact ⟨_, rfl⟩

/-- The text of a value is an operand. -/
theorem unary_tokens (h : v.IsWritable) (levels : Nat) (line : Int) :
    Parser.unary (Parser.deeperWithin (levels + 1))
      (v.tokens ++ [⟨.semicolon, .str ";", .null, line⟩]) =
      ⟨some v.expression, [⟨.semicolon, .str ";", .null, line⟩], []⟩ := by
  cases h with
  | bool b => cases b <;> rfl
  | @int n hn =>
    obtain ⟨lexeme, ht⟩ := tokens_int n
    rw [ht, expression]
    by_cases hneg : n < 0
    · rw [if_pos hneg, if_pos hneg]
      rfl
    · have hsize : (n.natAbs : Int) = n := Int.natAbs_of_nonneg (Int.not_lt.1 hneg)
      rw [if_neg hneg, if_neg hneg, hsize]
      rfl
  | @str s hs =>
    obtain ⟨lexeme, ht⟩ := tokens_str s
    rw [ht]
    rfl

theorem ofText_printing (h : v.IsWritable) :
    (Source.ofText v.printing).program = [.printStmt v.expression] ∧
      (Source.ofText v.printing).reports = [] := by
  have herrors := error?_of_mem_printing h
  obtain ⟨line, ht⟩ := uncheckedTokens_printing h
  obtain ⟨hprogram, hsyntactic⟩ := parse_of_no_errors herrors
  rw [ht, Parser.program_print rfl rfl (unary_tokens h 49 line)] at hprogram hsyntactic
  refine ⟨hprogram, ?_⟩
  rw [Source.reports, (lexical_eq_nil_iff _).2 herrors, hsyntactic]
  rfl

theorem eval_expression (settings : Settings) {depth : Nat} (levels : 2 ≤ depth) (v : Value)
    (s : State) : Run.eval settings depth v.expression s = .ok v s := by
  obtain ⟨d, rfl⟩ := Nat.exists_eq_add_of_le' levels
  unfold expression
  split
  · next n =>
    split
    · next hneg =>
      have hn : -(n.natAbs : Int) = n := by omega
      exact congrArg (fun m => EStateM.Result.ok (Value.int m) s) hn
    · rfl
  · rfl

theorem runTraced_print (settings : Settings) (levels : 3 ≤ settings.depth) (v : Value)
    (s : State) : ∃ trace, Run.runTraced settings (.printStmt v.expression) s =
      .ok () { s with output := s.output.push v.display, trace := trace } := by
  have hstatement (s : State) : Run.runStatement settings (.printStmt v.expression) s =
      .ok () { s with output := s.output.push v.display } := by
    obtain ⟨d, hd⟩ := Nat.exists_eq_add_of_le' (Nat.one_le_of_lt levels)
    have he : Run.exec settings (d + 1) (.printStmt v.expression) s =
        .ok () { s with output := s.output.push v.display } :=
      Run.bind_of_ok (eval_expression settings (by omega) v s)
    rw [Run.runStatement, hd, he]
  unfold Run.runTraced Run.traceFrom
  split
  · exact ⟨_, hstatement _⟩
  · exact ⟨s.trace, hstatement s⟩

theorem interpret_print (settings : Settings) (levels : 3 ≤ settings.depth) (env : Environment)
    (v : Value) : (interpret settings env [.printStmt v.expression]).stop = none ∧
      (interpret settings env [.printStmt v.expression]).output = [v.display] := by
  obtain ⟨trace, hr⟩ := runTraced_print settings levels v ⟨env, #[], #[]⟩
  rw [interpret, Run.sequence, Run.bind_of_ok hr]
  exact ⟨rfl, rfl⟩

theorem shows_program (settings : Settings) (levels : 3 ≤ settings.depth) (v : Value) :
    (Workspace.empty.runProgram settings [.printStmt v.expression]).Shows v.display := by
  obtain ⟨hstop, houtput⟩ := interpret_print settings levels .empty v
  refine ⟨?_, hstop, houtput⟩
  have hreports : (interpret settings .empty [.printStmt v.expression]).reports = [] := by
    rw [RunResult.reports, RunResult.fault?, hstop]
    rfl
  exact congrArg Log.empty.addRuntimeErrors hreports

theorem shows_text (h : v.IsWritable) (settings : Settings) (levels : 3 ≤ settings.depth) :
    (runSource settings .empty v.printing).Shows v.display := by
  obtain ⟨hprogram, hreports⟩ := ofText_printing h
  have hstep : runSource settings .empty v.printing =
      Workspace.empty.runProgram settings [.printStmt v.expression] := by
    rw [runSource, Workspace.runText, hprogram, hreports]
    rfl
  rw [hstep]
  exact shows_program settings levels v

theorem equal_self (h : v.IsWritable) : v.equal v = .ok true := by
  cases h <;> (simp [Value.equal, Value.kind, Value.kind?]; rfl)

end Value

/-- A text without a report is accepted by the strict front end too, with the same program. -/
theorem strict_parse_of_no_reports {text : String} (h : (Source.ofText text).reports = []) :
    Strict.parse text = .ok (Source.ofText text).program := by
  obtain ⟨hlexical, hsyntactic⟩ := List.append_eq_nil_iff.1 h
  obtain ⟨hprogram, hcomplaints⟩ := parse_of_no_errors ((lexical_eq_nil_iff text).1 hlexical)
  rw [hcomplaints, List.map_eq_nil_iff, Parser.program_clean_iff] at hsyntactic
  obtain ⟨tree, ht, hb, hn⟩ := hsyntactic
  rw [hprogram, (Parser.program_of_isTreeOf ht hn).1]
  exact strict_accepts_iff.2 ⟨hlexical, tree, ht, hb, rfl⟩

/-- A boolean, a number or a string without a double quote is printed so that the text can stand in
a program, with quotes around it if it is a string: both front ends read a `print` of that text
without a report, running it prints the value again and nothing else, and the expression that was
read has an equal value. -/
theorem print_reads_back {v : Value} (h : v.IsWritable) {settings : Settings}
    (levels : 3 ≤ settings.depth) :
    let text := "print " ++ v.written ++ ";"
    ∃ e, (Source.ofText text).program = [.printStmt e] ∧
      Strict.parse text = .ok [.printStmt e] ∧
      (runSource settings .empty text).Shows v.display ∧
      (Workspace.empty.runProgram settings [.printStmt e]).Shows v.display ∧
      ∀ s, ∃ w, Run.eval settings settings.depth e s = .ok w s ∧ w.equal v = .ok true := by
  intro text
  obtain ⟨hprogram, hreports⟩ := Value.ofText_printing h
  have hstrict := strict_parse_of_no_reports hreports
  rw [hprogram] at hstrict
  refine ⟨v.expression, hprogram, hstrict, Value.shows_text h settings levels,
    Value.shows_program settings levels v, ?_⟩
  intro s
  exact ⟨v, Value.eval_expression settings (Nat.le_of_lt levels) v s, Value.equal_self h⟩

/-- A negative number is read as a minus before its size. -/
theorem print_reads_back_negative :
    ∃ e, (Source.ofText "print -12;").program = [.printStmt e] ∧
      e = .unary Value.sign (.literal (.int 12)) ∧
      Strict.parse "print -12;" = .ok [.printStmt e] ∧
      (runSource ⟨10, 0, 0⟩ .empty "print -12;").Shows "-12" ∧
      ∀ s, ∃ w, Run.eval ⟨10, 0, 0⟩ 10 e s = .ok w s ∧ w.equal (.int (-12)) = .ok true := by
  have hrange : Number.InRange (-12) := (Number.inRange_iff_length _).2 (by decide)
  have htext : "print " ++ (Value.int (-12)).written ++ ";" = "print -12;" := by decide +kernel
  have hdisplay : (Value.int (-12)).display = "-12" := by decide +kernel
  have h := @print_reads_back (.int (-12)) (.int hrange) ⟨10, 0, 0⟩ (by decide)
  simp only [htext, hdisplay] at h
  obtain ⟨e, hprogram, hstrict, hshows, -, heval⟩ := h
  have hread : (Source.ofText "print -12;").program =
      [.printStmt (.unary Value.sign (.literal (.int 12)))] := by decide +kernel
  have he : e = .unary Value.sign (.literal (.int 12)) := by
    have hsame := hprogram.symm.trans hread
    simpa only [List.cons.injEq, Node.printStmt.injEq, and_true] using hsame
  exact ⟨e, hprogram, he, hstrict, hshows, heval⟩

end LetLang
