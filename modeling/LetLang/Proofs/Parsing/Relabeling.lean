import LetLang.Parser.Statement

namespace LetLang

/-- The function changes nothing of a token but its line. -/
structure Token.KeepsContent (f : Token → Token) : Prop where
  kind : ∀ t, (f t).kind = t.kind
  lexeme : ∀ t, (f t).lexeme = t.lexeme
  literal : ∀ t, (f t).literal = t.literal

theorem Token.keepsContent_id : Token.KeepsContent id :=
  ⟨fun _ => rfl, fun _ => rfl, fun _ => rfl⟩

namespace Node

mutual
/-- The tree with other tokens. -/
def map (f : Token → Token) : Node → Node
  | .absent => .absent
  | .literal value => .literal value
  | .binary left operator right => .binary (map f left) (f operator) (map f right)
  | .unary operator right => .unary (f operator) (map f right)
  | .logical left operator right => .logical (map f left) (f operator) (map f right)
  | .grouping e => .grouping (map f e)
  | .var name => .var (f name)
  | .assign name value => .assign (f name) (map f value)
  | .exprStmt e => .exprStmt (map f e)
  | .printStmt e => .printStmt (map f e)
  | .varDecl name initializer => .varDecl (f name) (map f initializer)
  | .ifStmt condition thenBranch elseBranch =>
    .ifStmt (map f condition) (map f thenBranch) (map f elseBranch)
  | .forStmt keyword start finish body =>
    .forStmt (f keyword) (map f start) (map f finish) (mapAll f body)
  | .whileStmt condition body => .whileStmt (map f condition) (mapAll f body)
def mapAll (f : Token → Token) : List Node → List Node
  | [] => []
  | node :: nodes => map f node :: mapAll f nodes
end

theorem mapAll_append (f : Token → Token) (left right : List Node) :
    mapAll f (left ++ right) = mapAll f left ++ mapAll f right := by
  induction left with
  | nil => rfl
  | cons node left ih => simp only [List.cons_append, mapAll, ih]

theorem mapAll_toList (f : Token → Token) (node : Option Node) :
    mapAll f node.toList = (node.map (map f)).toList := by
  cases node <;> rfl

end Node

namespace Parser
open Node (map mapAll)

def Complaint.map (f : Token → Token) (c : Complaint) : Complaint := ⟨c.ahead.map f, c.error⟩

section
variable {α β γ δ : Type}

/-- On changed tokens the second parser does what the first one does on the tokens themselves. -/
def Commutes (f : Token → Token) (g : α → β) (p : Parse α) (q : Parse β) : Prop :=
  ∀ ts, q (ts.map f) = ⟨(p ts).result.map g, (p ts).rest.map f, (p ts).complaints.map (.map f)⟩

variable {f : Token → Token} {g : α → β} {h : γ → δ}

theorem commutes_pure (a : α) : Commutes f g (pure a) (pure (g a)) := fun _ => rfl

theorem commutes_fail (e : SyntaxError) : Commutes f g (fail e) (fail e) := fun _ => rfl

theorem commutes_complain (ahead : List Token) (e : SyntaxError) :
    Commutes f id (complain ahead e) (complain (ahead.map f) e) := fun _ => rfl

theorem commutes_lookahead : Commutes f (List.map f) lookahead lookahead := fun _ => rfl

theorem Commutes.bind {p : Parse α} {q : Parse β} {k : α → Parse γ} {l : β → Parse δ}
    (hp : Commutes f g p q) (hk : ∀ a, Commutes f h (k a) (l (g a))) :
    Commutes f h (p >>= k) (q >>= l) := by
  intro ts
  have hq := hp ts
  simp only [Bind.bind, Parse.bind, hq]
  cases (p ts).result with
  | none => rfl
  | some a =>
    have hl := hk a (p ts).rest
    simp only [Option.map_some, hl, List.map_append]

variable (hf : Token.KeepsContent f)
include hf

theorem commutes_accept (kinds : List TokenKind) :
    Commutes f (Option.map f) (accept kinds) (accept kinds) := by
  intro ts
  cases ts with
  | nil => rfl
  | cons t ts =>
    simp only [List.map_cons, accept, hf.kind]
    split <;> rfl

/-- Goes on after a token that may be there. -/
theorem Commutes.accept {kinds : List TokenKind} {k : Option Token → Parse γ}
    {l : Option Token → Parse δ} (hn : Commutes f h (k none) (l none))
    (hs : ∀ t, Commutes f h (k (some t)) (l (some (f t)))) :
    Commutes f h (accept kinds >>= k) (accept kinds >>= l) := by
  refine (commutes_accept hf kinds).bind fun t => ?_
  cases t with
  | none => exact hn
  | some t => exact hs t

theorem commutes_expect (kind : TokenKind) (e : SyntaxError) :
    Commutes f f (expect kind e) (expect kind e) :=
  .accept hf (commutes_fail e) commutes_pure

end

section
variable {f : Token → Token} (hf : Token.KeepsContent f)
include hf

section
variable {operators : List TokenKind} {build : Node → Token → Node → Node} {operand : Parse Node}
  (hb : ∀ l o r, map f (build l o r) = build (map f l) (f o) (map f r))
  (ho : Commutes f (map f) operand operand)
include hb ho

theorem commutes_chainFrom (bound : List Token) (left : Node) :
    Commutes f (map f) (chainFrom operators build operand bound left)
      (chainFrom operators build operand (bound.map f) (map f left)) := by
  induction bound generalizing left with
  | nil => exact commutes_pure left
  | cons b bound ih =>
    refine .accept hf (commutes_pure left) fun o => ho.bind fun right => ?_
    rw [← hb]
    exact ih (build left o right)

theorem commutes_chain :
    Commutes f (map f) (chain operators build operand) (chain operators build operand) :=
  ho.bind fun first => commutes_lookahead.bind fun bound => commutes_chainFrom hf hb ho bound first

end

/-- The parsers one level deeper change what they build along with the tokens. -/
structure DeeperCommutes (f : Token → Token) (deeper : Deeper) : Prop where
  expression : Commutes f (map f) deeper.expression deeper.expression
  assignment : Commutes f (map f) deeper.assignment deeper.assignment
  unary : Commutes f (map f) deeper.unary deeper.unary
  statement : Commutes f (map f) deeper.statement deeper.statement
  declaration : Commutes f (Option.map (map f)) deeper.declaration deeper.declaration

variable {deeper : Deeper} (hd : DeeperCommutes f deeper)
include hd

theorem commutes_primary : Commutes f (map f) (primary deeper) (primary deeper) := by
  refine .accept hf (commutes_fail _) fun t => ?_
  dsimp only
  rw [hf.kind, hf.literal]
  split
  · exact commutes_pure (Node.literal (.bool true))
  · exact commutes_pure (Node.literal (.bool false))
  · exact commutes_pure (Node.var t)
  · exact hd.expression.bind fun inner => (commutes_expect hf _ _).bind fun _ =>
      commutes_pure (Node.grouping inner)
  · exact commutes_pure (Node.literal (.data t.literal))

theorem commutes_exponent : Commutes f (map f) (exponent deeper) (exponent deeper) := by
  refine (commutes_primary hf hd).bind fun base => .accept hf (commutes_pure base) fun o => ?_
  exact hd.unary.bind fun power => commutes_pure (Node.binary base o power)

theorem commutes_unary : Commutes f (map f) (unary deeper) (unary deeper) := by
  refine .accept hf (commutes_exponent hf hd) fun o => ?_
  exact hd.unary.bind fun operand => commutes_pure (Node.unary o operand)

theorem commutes_sum : Commutes f (map f) (sum deeper) (sum deeper) :=
  commutes_chain hf (fun _ _ _ => rfl) (commutes_chain hf (fun _ _ _ => rfl) (commutes_unary hf hd))

theorem commutes_disjunction : Commutes f (map f) (disjunction deeper) (disjunction deeper) :=
  commutes_chain hf (fun _ _ _ => rfl) <| commutes_chain hf (fun _ _ _ => rfl) <|
    commutes_chain hf (fun _ _ _ => rfl) <| commutes_chain hf (fun _ _ _ => rfl) <|
      commutes_sum hf hd

theorem commutes_assignment : Commutes f (map f) (assignment deeper) (assignment deeper) := by
  refine (commutes_disjunction hf hd).bind fun target => commutes_lookahead.bind fun ahead => ?_
  refine .accept hf (commutes_pure target) fun _ => hd.assignment.bind fun value => ?_
  cases target with
  | var name => exact commutes_pure (Node.assign name value)
  | _ => exact (commutes_complain ahead _).bind fun _ => commutes_pure _

theorem commutes_expression : Commutes f (map f) (expression deeper) (expression deeper) :=
  commutes_chain hf (fun _ _ _ => rfl) (commutes_assignment hf hd)

theorem commutes_varDecl : Commutes f (map f) (varDecl deeper) (varDecl deeper) := by
  refine (commutes_expect hf _ _).bind fun name => ?_
  have hrest (initializer : Node) : Commutes f (map f)
      (expect .semicolon .expectedSemicolonAfterDeclaration >>= fun _ =>
        pure (.varDecl name initializer))
      (expect .semicolon .expectedSemicolonAfterDeclaration >>= fun _ =>
        pure (.varDecl (f name) (map f initializer))) :=
    (commutes_expect hf _ _).bind fun _ => commutes_pure (Node.varDecl name initializer)
  refine .accept hf ?_ fun _ => ?_
  · exact (commutes_pure (g := map f) Node.absent).bind hrest
  · exact (commutes_expression hf hd).bind hrest

theorem commutes_exprStmt {build : Node → Node} (hb : ∀ e, map f (build e) = build (map f e)) :
    Commutes f (map f) (exprStmt deeper build) (exprStmt deeper build) := by
  refine (commutes_expression hf hd).bind fun e => (commutes_expect hf _ _).bind fun _ => ?_
  rw [← hb]
  exact commutes_pure (build e)

theorem commutes_ifStmt : Commutes f (map f) (ifStmt deeper) (ifStmt deeper) := by
  refine (commutes_expression hf hd).bind fun c => (commutes_expect hf _ _).bind fun _ => ?_
  refine hd.statement.bind fun thenBranch => ?_
  have hrest (elseBranch : Node) : Commutes f (map f) (pure (.ifStmt c thenBranch elseBranch))
      (pure (.ifStmt (map f c) (map f thenBranch) (map f elseBranch))) :=
    commutes_pure (Node.ifStmt c thenBranch elseBranch)
  refine .accept hf ?_ fun _ => ?_
  · exact (commutes_pure (g := map f) Node.absent).bind hrest
  · exact hd.statement.bind hrest

omit hd in
theorem commutes_blockBody {declaration : Parse (Option Node)}
    (h : Commutes f (Option.map (map f)) declaration declaration) (bound : List Token) :
    Commutes f (mapAll f) (blockBody declaration bound) (blockBody declaration (bound.map f)) := by
  induction bound with
  | nil => exact commutes_pure []
  | cons b bound ih =>
    refine commutes_lookahead.bind fun ahead => ?_
    cases ahead with
    | nil => exact commutes_pure []
    | cons t ahead =>
      simp only [List.map_cons, hf.kind]
      split
      · exact commutes_pure []
      · refine h.bind fun first => ih.bind fun others => ?_
        rw [← Node.mapAll_toList, ← Node.mapAll_append]
        exact commutes_pure (first.toList ++ others)

theorem commutes_block : Commutes f (mapAll f) (block deeper) (block deeper) :=
  commutes_lookahead.bind fun ahead => (commutes_blockBody hf hd.declaration ahead).bind fun body =>
    (commutes_expect hf _ _).bind fun _ => commutes_pure body

theorem commutes_forStmt (keyword : Token) :
    Commutes f (map f) (forStmt deeper keyword) (forStmt deeper (f keyword)) := by
  refine (commutes_expect hf _ _).bind fun _ => (commutes_expect hf _ _).bind fun _ => ?_
  refine (commutes_sum hf hd).bind fun start => (commutes_expect hf _ _).bind fun _ => ?_
  refine (commutes_sum hf hd).bind fun finish => (commutes_expect hf _ _).bind fun _ => ?_
  exact (commutes_block hf hd).bind fun body => commutes_pure (Node.forStmt keyword start finish body)

theorem commutes_whileStmt : Commutes f (map f) (whileStmt deeper) (whileStmt deeper) := by
  refine (commutes_expression hf hd).bind fun c => (commutes_expect hf _ _).bind fun _ => ?_
  exact (commutes_block hf hd).bind fun body => commutes_pure (Node.whileStmt c body)

theorem commutes_statement : Commutes f (map f) (statement deeper) (statement deeper) := by
  refine .accept hf (commutes_exprStmt hf hd fun _ => rfl) fun t => ?_
  dsimp only
  rw [hf.kind]
  split
  · exact commutes_ifStmt hf hd
  · exact commutes_exprStmt hf hd fun _ => rfl
  · exact commutes_forStmt hf hd t
  · exact commutes_whileStmt hf hd

theorem commutes_declarationOrFail :
    Commutes f (map f) (declarationOrFail deeper) (declarationOrFail deeper) :=
  .accept hf (commutes_statement hf hd) fun _ => commutes_varDecl hf hd

omit hf hd in
theorem resume_cons_cons (t next : Token) (rest : List Token) :
    resume (t :: next :: rest) =
      if t.kind = .semicolon then next :: rest
      else if startsStatement next then next :: rest else resume (next :: rest) := by
  rw [resume]

omit hd in
theorem resume_map (ts : List Token) : resume (ts.map f) = (resume ts).map f := by
  induction ts with
  | nil => rfl
  | cons t rest ih =>
    cases rest with
    | nil =>
      simp only [List.map_cons, List.map_nil, resume, hf.kind]
      split <;> rfl
    | cons next rest =>
      have hs : startsStatement (f next) = startsStatement next := by
        rw [startsStatement, startsStatement, hf.kind]
      rw [List.map_cons, List.map_cons, resume_cons_cons, resume_cons_cons, hf.kind, hs]
      rw [List.map_cons] at ih
      rw [ih]
      split
      · rfl
      · split <;> rfl

theorem commutes_declaration :
    Commutes f (Option.map (map f)) (declaration deeper) (declaration deeper) := by
  intro ts
  have h := commutes_declarationOrFail hf hd ts
  simp only [declaration, h]
  cases (declarationOrFail deeper ts).result with
  | none => simp [resume_map hf]
  | some node => rfl

omit hd in
theorem deeperWithin_commutes (levels : Nat) : DeeperCommutes f (deeperWithin levels) := by
  induction levels with
  | zero =>
    exact ⟨commutes_fail _, commutes_fail _, commutes_fail _, commutes_fail _, commutes_fail _⟩
  | succ levels ih =>
    exact ⟨commutes_expression hf ih, commutes_assignment hf ih, commutes_unary hf ih,
      commutes_statement hf ih, commutes_declaration hf ih⟩

omit hf hd in
theorem declarations_map {declaration : Parse (Option Node)}
    (h : Commutes f (Option.map (map f)) declaration declaration) (bound ts : List Token) :
    declarations declaration (bound.map f) (ts.map f) =
      (mapAll f (declarations declaration bound ts).1,
        (declarations declaration bound ts).2.map (.map f)) := by
  induction bound generalizing ts with
  | nil => rfl
  | cons b bound ih =>
    cases ts with
    | nil => rfl
    | cons t ts =>
      have ht := h (t :: ts)
      rw [List.map_cons] at ht
      simp only [List.map_cons, declarations, ht, ih, List.map_append, Node.mapAll_append]
      cases (declaration (t :: ts)).result with
      | none => rfl
      | some node => simp only [Option.map_some, Option.join_some, Node.mapAll_toList]

omit hd in
/-- A program is parsed the same on whatever lines its tokens are. -/
theorem program_map (ts : List Token) :
    program (ts.map f) = (mapAll f (program ts).1, (program ts).2.map (.map f)) :=
  declarations_map (commutes_declaration hf (deeperWithin_commutes hf maxNesting)) ts ts

end

end Parser

end LetLang
