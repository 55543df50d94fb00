import LetLang.Proofs.Grammar.Uniqueness
import LetLang.Proofs.Parsing.Statement

namespace LetLang.Parser
open Strict

/-- Nothing is read where no token is left. -/
def endOfTokens (ts : List Token) : Strict.Parsed :=
  if ts.isEmpty then .ok ([], []) else .error ts

theorem isSome_declaration (deeper : Deeper) (ts : List Token) :
    ((declaration deeper ts).result).isSome = true := by
  unfold declaration
  dsimp only
  split <;> rfl

/-- The declarations of a program as a parser, which leaves nothing. -/
def declarationsOf (deeper : Deeper) (bound : List Token) : Parse (List Node) := fun ts =>
  let (nodes, complaints) := declarations (declaration deeper) bound ts
  ⟨some nodes, [], complaints⟩

theorem declarationsOf_cons (deeper : Deeper) (b : Token) (bound : List Token) {ts : List Token}
    (h : ts ≠ []) :
    declarationsOf deeper (b :: bound) ts =
      (declaration deeper >>= fun first => declarationsOf deeper bound >>= fun others =>
        pure (first.toList ++ others)) ts := by
  obtain ⟨t, ts, rfl⟩ := List.exists_cons_of_ne_nil h
  obtain ⟨first, hf⟩ := Option.isSome_iff_exists.1 (isSome_declaration deeper (t :: ts))
  simp [bind, Parse.bind, pure, Parse.pure, hf, declarationsOf, declarations]

theorem declarationsOf_agrees {n : Nat} {deeper : Deeper} (hd : DeeperFollows n deeper)
    (ts : List Token) :
    Agrees (fun trees => ∀ t ∈ trees, 0 + t.nesting ≤ n) AreStatements (declarationsOf deeper ts ts)
      (andThen (reading (.many (.rule .declaration)) ts) endOfTokens) := by
  refine row_agrees (e := (· = [])) (declaration_follows hd) rfl ?_ ?_ ?_
    (fun b bound _ => declarationsOf_cons deeper b bound) (Nat.le_refl _)
  · rintro _ rfl
    rfl
  · intro ts h
    simp [endOfTokens, h]
  · rintro bound _ rfl
    have hn : declarationsOf deeper bound [] = ⟨some [], [], []⟩ := by
      cases bound <;> rfl
    rw [hn]
    exact .clean rfl (by simp) .nil

theorem readProgram_eq_andThen (ts : List Token) :
    (readProgram ts).map (fun trees => (trees, [])) =
      (andThen (reading (.many (.rule .declaration)) ts) endOfTokens).map
        fun (children, rest) => (Rule.program.tree children, rest) := by
  rw [readProgram_eq, reading_rule, Rule.pattern]
  cases reading (.many (.rule .declaration)) ts with
  | error ts' => rfl
  | ok parsed =>
    obtain ⟨children, rest⟩ := parsed
    simp only [andThen, Except.map]
    cases rest <;> simp [endOfTokens]

/-- The parser of programs with so many levels below the top. -/
def programWithin (levels : Nat) (ts : List Token) : List Node × List Complaint :=
  declarations (declaration (deeperWithin levels)) ts ts

theorem programWithin_agrees (n : Nat) (ts : List Token) :
    Agrees (fun trees => ∀ t ∈ trees, t.nesting ≤ n)
      (fun trees nodes => programOf (astAll trees) = nodes)
      ⟨some (programWithin n ts).1, [], (programWithin n ts).2⟩
      ((readProgram ts).map fun trees => (trees, [])) := by
  have h := declarationsOf_agrees (deeperWithin_follows n) ts
  rw [readProgram_eq_andThen]
  refine .tree_of_ne (n := n) (by decide) (by simp) (h.mono ?_ ?_)
  · rintro children nodes rfl
    rfl
  · exact fun _ _ _ => (shallow_iff fun _ => rfl).symm

/-- The parser of programs agrees with the grammar. -/
theorem program_agrees (ts : List Token) :
    Agrees (fun trees => ∀ t ∈ trees, t.nesting ≤ maxNesting)
      (fun trees nodes => programOf (astAll trees) = nodes)
      ⟨some (program ts).1, [], (program ts).2⟩ ((readProgram ts).map fun trees => (trees, [])) :=
  programWithin_agrees maxNesting ts

theorem programWithin_of_isTreeOf {n : Nat} {ts : List Token} {tree : Tree} (h : IsTreeOf tree ts)
    (hn : tree.nesting ≤ n) :
    (programWithin n ts).1 = tree.statements ∧ Blames (programWithin n ts).2 tree.badTargets := by
  have ha := programWithin_agrees n ts
  rw [readProgram_eq_ok_iff.2 ⟨tree, rfl, h⟩] at ha
  generalize ho :
    (⟨some (programWithin n ts).1, [], (programWithin n ts).2⟩ : Outcome (List Node)) = o at ha
  cases ha with
  | clean value shallow blame =>
    cases ho
    rw [badTargetsAll_singleton] at blame
    exact ⟨value.symm, blame⟩
  | tooDeep before after complaints blame error deep =>
    exact absurd (by simpa using hn) (deep [tree] [] rfl).1

/-- A text with a shallow tree is complained about for its bad targets only. -/
theorem program_of_isTreeOf {ts : List Token} {tree : Tree} (h : IsTreeOf tree ts)
    (hn : tree.nesting ≤ maxNesting) :
    (program ts).1 = tree.statements ∧ Blames (program ts).2 tree.badTargets :=
  programWithin_of_isTreeOf h hn

/-- A text with good targets is either accepted or complained about for its nesting first. -/
theorem program_of_good_targets {ts : List Token} {tree : Tree} (h : IsTreeOf tree ts)
    (hb : tree.badTargets = []) :
    ((program ts).2 = [] ∧ (program ts).1 = tree.statements) ∨
      ∃ c after, (program ts).2 = c :: after ∧ c.error.isDepth = true := by
  have ha := program_agrees ts
  rw [readProgram_eq_ok_iff.2 ⟨tree, rfl, h⟩] at ha
  generalize ho : (⟨some (program ts).1, [], (program ts).2⟩ : Outcome (List Node)) = o at ha
  have hbad : badTargetsAll [tree] = [] := by rw [badTargetsAll_singleton, hb]
  cases ha with
  | clean value shallow blame =>
    cases ho
    rw [hbad] at blame
    exact .inl ⟨blame.eq_nil_iff.2 rfl, value.symm⟩
  | @tooDeep _ _ c equals before after complaints blame error deep =>
    subst ho
    have hpre := (deep [tree] [] rfl).2
    rw [hbad, List.prefix_nil] at hpre
    rw [blame.eq_nil_iff.2 hpre] at complaints
    exact .inr ⟨c, after, complaints, error⟩

theorem exists_tree_of_program {ts : List Token} (h : (program ts).2 = []) :
    ∃ tree, IsTreeOf tree ts ∧ tree.nesting ≤ maxNesting := by
  have ha := program_agrees ts
  generalize ho : (⟨some (program ts).1, [], (program ts).2⟩ : Outcome (List Node)) = o at ha
  generalize hr : (readProgram ts).map (fun trees => (trees, [])) = parsed at ha
  cases ha with
  | clean value shallow blame =>
    cases hp : readProgram ts with
    | error ts' => simp [hp, Except.map] at hr
    | ok trees =>
      obtain ⟨tree, rfl, ht⟩ := readProgram_eq_ok_iff.1 hp
      simp only [hp, Except.map, Except.ok.injEq, Prod.mk.injEq] at hr
      rw [← hr.1] at shallow
      exact ⟨tree, ht, shallow tree (List.mem_singleton_self tree)⟩
  | refused before after complaints blame error =>
    subst ho
    simp [h] at complaints
  | tooDeep before after complaints blame error deep =>
    subst ho
    simp [h] at complaints

theorem program_clean_iff (ts : List Token) :
    (program ts).2 = [] ↔
      ∃ tree, IsTreeOf tree ts ∧ tree.badTargets = [] ∧ tree.nesting ≤ maxNesting := by
  constructor
  · intro h
    obtain ⟨tree, ht, hn⟩ := exists_tree_of_program h
    exact ⟨tree, ht, (program_of_isTreeOf ht hn).2.eq_nil_iff.1 h, hn⟩
  · rintro ⟨tree, ht, hb, hn⟩
    exact (program_of_isTreeOf ht hn).2.eq_nil_iff.2 hb

theorem body_append {tokens : List Token} {last : Token} (hb : ∀ t ∈ tokens, t.kind ≠ .eof)
    (hl : last.kind = .eof) : body (tokens ++ [last]) = tokens := by
  rw [body, List.takeWhile_append_of_pos (by simpa using hb)]
  simp [hl]

theorem body_append_of_not_eof {us : List Token} (h : ∀ t ∈ us, t.kind ≠ .eof) (ts : List Token) :
    body (us ++ ts) = us ++ body ts :=
  List.takeWhile_append_of_pos (by simpa using h)

theorem body_of_not_eof {us : List Token} (h : ∀ t ∈ us, t.kind ≠ .eof) : body us = us := by
  simpa [body] using body_append_of_not_eof h []

theorem message_report (endLine : Int) (c : Complaint) :
    (c.report endLine).message = c.error.message := by
  unfold Complaint.report
  split <;> rfl

/-- Tokens up to one end of input are parsed without a report exactly when the grammar has a tree
for them whose targets are variables and which nests as deep as allowed. The program is that of
the tree, and there is no other tree. -/
theorem parse_accepts_language {tokens : List Token} {last : Token}
    (hb : ∀ t ∈ tokens, t.kind ≠ .eof) (hl : last.kind = .eof) :
    ((parse (tokens ++ [last])).reports = [] ↔
      ∃ tree, IsTreeOf tree tokens ∧ tree.badTargets = [] ∧ tree.nesting ≤ maxNesting) ∧
    (∀ tree, IsTreeOf tree tokens → tree.badTargets = [] → tree.nesting ≤ maxNesting →
      (parse (tokens ++ [last])).program = tree.statements) ∧
    ∀ tree other, IsTreeOf tree tokens → IsTreeOf other tokens → tree = other := by
  have hp : (parse (tokens ++ [last])).program = (program tokens).1 := by
    rw [parse, body_append hb hl]
  have hr : (parse (tokens ++ [last])).reports = [] ↔ (program tokens).2 = [] := by
    rw [parse, body_append hb hl, List.map_eq_nil_iff]
  refine ⟨hr.trans (program_clean_iff tokens), ?_, fun _ _ => IsTreeOf.unique⟩
  intro tree ht _ hn
  rw [hp, (program_of_isTreeOf ht hn).1]

theorem parse_accepts_variable :
    let tokens : List Token :=
      [⟨.identifier, .str "a", .str "a", 1⟩, ⟨.semicolon, .str ";", .null, 1⟩]
    (parse (tokens ++ [.endOfInput 1])).reports = [] ∧
      ∃ tree, IsTreeOf tree tokens ∧ tree.badTargets = [] ∧ tree.nesting ≤ maxNesting ∧
        (parse (tokens ++ [.endOfInput 1])).program = tree.statements := by
  intro tokens
  have hr : (parse (tokens ++ [.endOfInput 1])).reports = [] := rfl
  obtain ⟨accepts, builds, -⟩ :=
    @parse_accepts_language tokens (.endOfInput 1) (by decide) rfl
  obtain ⟨tree, ht, hb, hn⟩ := accepts.1 hr
  exact ⟨hr, tree, ht, hb, hn, builds tree ht hb hn⟩

end LetLang.Parser
