import LetLang.Proofs.Document.Codec
import LetLang.Proofs.Number.Text

namespace LetLang.Document

/-- What a field of a node holds. -/
inductive Slot where
  | token
  | child
  /-- A child that may be left out. -/
  | optionalChild
  | body
  /-- Any value. -/
  | literal
deriving DecidableEq

/-- The fields of the nodes with a tag, in the order in which they are looked at. -/
def layout? : String → Option (List (String × Slot))
  | "ExprStmt" | "PrintStmt" | "Grouping" => some [("expression", .child)]
  | "VarDecl" => some [("name", .token), ("initializer", .optionalChild)]
  | "IfStmt" =>
    some [("condition", .child), ("then_branch", .child), ("else_branch", .optionalChild)]
  | "ForStmt" => some [("keyword", .token), ("start", .child), ("end", .child), ("body", .body)]
  | "WhileStmt" => some [("condition", .child), ("body", .body)]
  | "Literal" => some [("value", .literal)]
  | "Binary" | "Logical" => some [("left", .child), ("operator", .token), ("right", .child)]
  | "Unary" => some [("operator", .token), ("right", .child)]
  | "Variable" => some [("name", .token)]
  | "Assign" => some [("name", .token), ("value", .child)]
  | _ => none

/-- The elements of a list. A text has its characters and an object the names of its fields. -/
def elements? : Json → Option (List Json)
  | .arr items => some items
  | .str s => some (s.toList.map fun c => .str (String.singleton c))
  | .obj fields => some (fields.map fun field => .str field.1)
  | _ => none

/-- The name of a kind of token. -/
def IsKindName (j : Json) : Prop := ∃ name, j = .str name ∧ (TokenKind.ofName? name).isSome = true

/-- The values that stand for a line: numbers, of which a fraction is cut off, truth values and
texts of numbers. -/
inductive TakesLine : Json → Int → Prop
  | int (n : Int) : TakesLine (.int n) n
  | true : TakesLine (.bool true) 1
  | false : TakesLine (.bool false) 0
  | float {x : Binary64} (finite : x.isFinite = true) :
    TakesLine (.float x) (x.units.tdiv Binary64.unitsPerOne)
  | text {s : String} {n : Int} (number : Number.IsNumberText s.toList n) : TakesLine (.str s) n

/-- A token of a known kind, with a lexeme and a line that can be read as a number. -/
inductive IsToken : Json → Prop
  | token {fields : List (String × Json)} {kind lexeme line : Json} {n : Int}
    (kindField : Json.field? "kind" fields = some kind) (known : IsKindName kind)
    (lexemeField : Json.field? "lexeme" fields = some lexeme)
    (lineField : Json.field? "line" fields = some line) (number : TakesLine line n) :
    IsToken (.obj fields)

mutual
/-- A node, or null. -/
inductive IsNode : Json → Prop
  | null : IsNode .null
  | node {fields : List (String × Json)} {tag : String} {slots : List (String × Slot)}
    (tagged : Json.field? "type" fields = some (.str tag)) (known : layout? tag = some slots)
    (holds : ∀ slot ∈ slots, Holds fields slot) : IsNode (.obj fields)
/-- The fields of an object hold at one of the names what the slot asks for. -/
inductive Holds : List (String × Json) → String × Slot → Prop
  | token {fields : List (String × Json)} {name : String} {j : Json}
    (field : Json.field? name fields = some j) (token : IsToken j) : Holds fields (name, .token)
  | child {fields : List (String × Json)} {name : String} {j : Json}
    (field : Json.field? name fields = some j) (node : IsNode j) : Holds fields (name, .child)
  | optionalChild {fields : List (String × Json)} {name : String}
    (node : IsNode ((Json.field? name fields).getD .null)) : Holds fields (name, .optionalChild)
  | body {fields : List (String × Json)} {name : String} {j : Json} {items : List Json}
    (field : Json.field? name fields = some j) (list : elements? j = some items)
    (nodes : ∀ item ∈ items, IsNode item) : Holds fields (name, .body)
  | literal {fields : List (String × Json)} {name : String} {j : Json}
    (field : Json.field? name fields = some j) : Holds fields (name, .literal)
end

/-- A program, with a body of nodes. -/
inductive IsDocument : Json → Prop
  | program {fields : List (String × Json)}
    (tagged : Json.field? "type" fields = some (.str "Program"))
    (body : Holds fields ("body", .body)) : IsDocument (.obj fields)

/-- What is wrong with a value that stands for no line. A text with too many digits is no number
for that reason, whatever else is in it. -/
inductive LineFails : Json → LoadError → Prop
  | null : LineFails .null (.notALine .null)
  | arr (items : List Json) : LineFails (.arr items) (.notALine (.arr items))
  | obj (fields : List (String × Json)) : LineFails (.obj fields) (.notALine (.obj fields))
  | isNaN {x : Binary64} (h : x.isNaN = true) : LineFails (.float x) .lineIsNaN
  | infinite {x : Binary64} (finite : x.isFinite = false) (number : x.isNaN = false) :
    LineFails (.float x) .lineIsInfinite
  | longText {s : String} {count : Nat} (digits : Number.HasTooManyDigits s.toList count) :
    LineFails (.str s) (.longLineText count)
  | badText {s : String} (number : ∀ n, ¬ Number.IsNumberText s.toList n)
    (digits : ∀ count, ¬ Number.HasTooManyDigits s.toList count) :
    LineFails (.str s) (.badLineText s)

/-- The first violation in what should be a token: its kind comes before its lexeme, and that
before its line. -/
inductive TokenFails : Json → LoadError → Prop
  | notAToken {j : Json} (h : ∀ fields, j ≠ .obj fields) : TokenFails j (.notAToken j)
  | noKind {fields : List (String × Json)} (kindField : Json.field? "kind" fields = none) :
    TokenFails (.obj fields) (.missingField "kind")
  | notAName {fields : List (String × Json)} {kind : Json}
    (kindField : Json.field? "kind" fields = some kind) (parts : kind.isScalar = false) :
    TokenFails (.obj fields) (.notAName kind)
  | unknownKind {fields : List (String × Json)} {kind : Json}
    (kindField : Json.field? "kind" fields = some kind) (scalar : kind.isScalar = true)
    (unknown : ¬ IsKindName kind) : TokenFails (.obj fields) (.unknownKind kind)
  | noLexeme {fields : List (String × Json)} {kind : Json}
    (kindField : Json.field? "kind" fields = some kind) (known : IsKindName kind)
    (lexemeField : Json.field? "lexeme" fields = none) :
    TokenFails (.obj fields) (.missingField "lexeme")
  | noLine {fields : List (String × Json)} {kind lexeme : Json}
    (kindField : Json.field? "kind" fields = some kind) (known : IsKindName kind)
    (lexemeField : Json.field? "lexeme" fields = some lexeme)
    (lineField : Json.field? "line" fields = none) :
    TokenFails (.obj fields) (.missingField "line")
  | badLine {fields : List (String × Json)} {kind lexeme line : Json} {e : LoadError}
    (kindField : Json.field? "kind" fields = some kind) (known : IsKindName kind)
    (lexemeField : Json.field? "lexeme" fields = some lexeme)
    (lineField : Json.field? "line" fields = some line) (fails : LineFails line e) :
    TokenFails (.obj fields) e

mutual
/-- The first violation in what should be a node: its tag comes first, and then its fields in the
order of the table, each with all that is in it. -/
inductive NodeFails : Json → LoadError → Prop
  | notANode {j : Json} (null : j ≠ .null) (h : ∀ fields, j ≠ .obj fields) : NodeFails j .notANode
  | unknownTag {fields : List (String × Json)}
    (unknown : ∀ tag, Json.field? "type" fields = some (.str tag) → layout? tag = none) :
    NodeFails (.obj fields) (.unknownTag ((Json.field? "type" fields).getD .null))
  | field {fields : List (String × Json)} {tag : String} {before after : List (String × Slot)}
    {slot : String × Slot} {e : LoadError} (tagged : Json.field? "type" fields = some (.str tag))
    (known : layout? tag = some (before ++ slot :: after))
    (earlier : ∀ slot ∈ before, Holds fields slot) (fails : SlotFails fields slot e) :
    NodeFails (.obj fields) e
/-- The first violation in what the fields of an object hold at one of the names. -/
inductive SlotFails : List (String × Json) → String × Slot → LoadError → Prop
  | missing {fields : List (String × Json)} {name : String} {slot : Slot}
    (required : slot ≠ .optionalChild) (field : Json.field? name fields = none) :
    SlotFails fields (name, slot) (.missingField name)
  | token {fields : List (String × Json)} {name : String} {j : Json} {e : LoadError}
    (field : Json.field? name fields = some j) (fails : TokenFails j e) :
    SlotFails fields (name, .token) e
  | child {fields : List (String × Json)} {name : String} {j : Json} {e : LoadError}
    (field : Json.field? name fields = some j) (fails : NodeFails j e) :
    SlotFails fields (name, .child) e
  | optionalChild {fields : List (String × Json)} {name : String} {j : Json} {e : LoadError}
    (field : Json.field? name fields = some j) (fails : NodeFails j e) :
    SlotFails fields (name, .optionalChild) e
  | notAList {fields : List (String × Json)} {name : String} {j : Json}
    (field : Json.field? name fields = some j) (list : elements? j = none) :
    SlotFails fields (name, .body) (.notAList j)
  | body {fields : List (String × Json)} {name : String} {j item : Json} {before after : List Json}
    {e : LoadError} (field : Json.field? name fields = some j)
    (list : elements? j = some (before ++ item :: after))
    (earlier : ∀ item ∈ before, IsNode item) (fails : NodeFails item e) :
    SlotFails fields (name, .body) e
end

/-- The first violation in what should be a document. -/
inductive DocumentFails : Json → LoadError → Prop
  | notAProgram {j : Json}
    (h : ∀ fields, j = .obj fields → Json.field? "type" fields ≠ some (.str "Program")) :
    DocumentFails j .notAProgram
  | body {fields : List (String × Json)} {e : LoadError}
    (tagged : Json.field? "type" fields = some (.str "Program"))
    (fails : SlotFails fields ("body", .body) e) : DocumentFails (.obj fields) e

/-- Something is loaded exactly if it is fine, and otherwise fails with its violation. -/
structure Judges {α : Type} (x : Except LoadError α) (Fine : Prop) (Fails : LoadError → Prop) :
    Prop where
  ok : (∃ a, x = .ok a) ↔ Fine
  error : ∀ e, x = .error e ↔ Fails e

/-- The first of the items that is not fine. -/
def FirstFails {ι : Type} (Fine : ι → Prop) (Fails : ι → LoadError → Prop) (items : List ι)
    (e : LoadError) : Prop :=
  ∃ before item after, items = before ++ item :: after ∧ (∀ item ∈ before, Fine item) ∧ Fails item e

section
variable {α β ι : Type} {Fine : ι → Prop} {Fails : ι → LoadError → Prop}

theorem firstFails_cons {item : ι} {items : List ι} {e : LoadError} :
    FirstFails Fine Fails (item :: items) e ↔
      Fails item e ∨ Fine item ∧ FirstFails Fine Fails items e := by
  constructor
  · rintro ⟨before, other, after, hs, hb, hf⟩
    cases before with
    | nil =>
      cases hs
      exact .inl hf
    | cons first before =>
      cases hs
      rw [List.forall_mem_cons] at hb
      exact .inr ⟨hb.1, before, other, after, rfl, hb.2, hf⟩
  · rintro (hf | ⟨hi, before, other, after, rfl, hb, hf⟩)
    · exact ⟨[], item, items, rfl, List.forall_mem_nil _, hf⟩
    · exact ⟨item :: before, other, after, rfl, List.forall_mem_cons.2 ⟨hi, hb⟩, hf⟩

theorem judges_ok {P : Prop} {F : LoadError → Prop} {a : α} :
    Judges (.ok a) P F ↔ P ∧ ∀ e, ¬ F e := by
  constructor
  · intro h
    refine ⟨h.ok.1 ⟨a, rfl⟩, fun e he => ?_⟩
    cases (h.error e).2 he
  · rintro ⟨hp, hf⟩
    exact ⟨iff_of_true ⟨a, rfl⟩ hp, fun e => iff_of_false nofun (hf e)⟩

theorem judges_error {P : Prop} {F : LoadError → Prop} {e : LoadError} :
    Judges (.error e : Except LoadError α) P F ↔ ¬ P ∧ ∀ e', F e' ↔ e' = e := by
  constructor
  · intro h
    refine ⟨fun hp => ?_, fun e' => ?_⟩
    · obtain ⟨a, ha⟩ := h.ok.2 hp
      cases ha
    · rw [← h.error e', Except.error.injEq]
      exact eq_comm
  · rintro ⟨hp, hf⟩
    refine ⟨iff_of_false nofun hp, fun e' => ?_⟩
    rw [hf e', Except.error.injEq]
    exact eq_comm

theorem Judges.congr {x : Except LoadError α} {P Q : Prop} {F G : LoadError → Prop}
    (h : Judges x P F) (hp : P ↔ Q) (hf : ∀ e, F e ↔ G e) : Judges x Q G :=
  ⟨h.ok.trans hp, fun e => (h.error e).trans (hf e)⟩

theorem Judges.map {x : Except LoadError α} {P : Prop} {F : LoadError → Prop} (h : Judges x P F)
    (f : α → β) : Judges (x >>= fun a => .ok (f a)) P F := by
  cases x with
  | error e => exact judges_error.2 (judges_error.1 h)
  | ok a => exact judges_ok.2 (judges_ok.1 h)

theorem Judges.nil (a : α) : Judges (.ok a) (∀ item ∈ ([] : List ι), Fine item)
    (FirstFails Fine Fails []) := by
  refine judges_ok.2 ⟨List.forall_mem_nil _, ?_⟩
  rintro e ⟨before, item, after, hs, -⟩
  exact absurd hs (by simp)

/-- What is loaded in two steps fails in the first one, or is fine there and fails in the second. -/
theorem Judges.bind {x : Except LoadError α} {f : α → Except LoadError β} {P Q : Prop}
    {F G : LoadError → Prop} (hx : Judges x P F) (hf : ∀ a, Judges (f a) Q G) :
    Judges (x >>= f) (P ∧ Q) fun e => F e ∨ P ∧ G e := by
  cases x with
  | error e =>
    obtain ⟨hn, he⟩ := judges_error.1 hx
    refine judges_error.2 ⟨fun h => hn h.1, fun e' => ?_⟩
    rw [← he]
    exact or_iff_left fun h => hn h.1
  | ok a =>
    obtain ⟨hp, hn⟩ := judges_ok.1 hx
    refine (hf a).congr (and_iff_right hp).symm fun e => ?_
    rw [or_iff_right (hn e), and_iff_right hp]

/-- What is loaded piece by piece fails with the first piece that is not fine. -/
theorem Judges.cons {x : Except LoadError α} {f : α → Except LoadError β} {item : ι}
    {items : List ι} (hx : Judges x (Fine item) (Fails item))
    (hf : ∀ a, Judges (f a) (∀ x ∈ items, Fine x) (FirstFails Fine Fails items)) :
    Judges (x >>= f) (∀ x ∈ item :: items, Fine x) (FirstFails Fine Fails (item :: items)) :=
  (hx.bind hf).congr List.forall_mem_cons.symm fun _ => firstFails_cons.symm

end

section
variable {α : Type} (name : String) (fields : List (String × Json))

theorem judges_required :
    Judges (required name fields) (∃ j, Json.field? name fields = some j)
      fun e => Json.field? name fields = none ∧ e = .missingField name := by
  unfold required
  cases Json.field? name fields with
  | none => exact judges_error.2 ⟨nofun, fun e => and_iff_right rfl⟩
  | some j => exact judges_ok.2 ⟨⟨j, rfl⟩, nofun⟩

/-- A field that must be there is looked for first. -/
theorem Judges.required {f : Json → Except LoadError α} {Fine : Json → Prop}
    {Fails : Json → LoadError → Prop}
    (h : ∀ j, Json.field? name fields = some j → Judges (f j) (Fine j) (Fails j)) :
    Judges (required name fields >>= f) (∃ j, Json.field? name fields = some j ∧ Fine j) fun e =>
      Json.field? name fields = none ∧ e = .missingField name ∨
        ∃ j, Json.field? name fields = some j ∧ Fails j e := by
  unfold Document.required
  cases hj : Json.field? name fields with
  | none =>
    refine judges_error.2 ⟨by simp, fun e => ?_⟩
    simp
  | some j => exact (h j hj).congr (by simp) (by simp)

end

theorem isKindName_iff (j : Json) : IsKindName j ↔ ∃ kind, kindOf j = .ok kind := by
  unfold IsKindName kindOf
  cases j with
  | str name => cases h : TokenKind.ofName? name <;> simp [h]
  | _ => simp

theorem kindOf_eq_error (j : Json) (h : ¬ IsKindName j) :
    kindOf j = .error (if j.isScalar then .unknownKind j else .notAName j) := by
  cases j with
  | str name =>
    have hn : TokenKind.ofName? name = none := by
      refine Option.eq_none_iff_forall_ne_some.2 fun kind hk => h ⟨name, rfl, ?_⟩
      rw [hk]
      rfl
    simp [kindOf, hn, Json.isScalar]
  | _ => rfl

theorem judges_kindOf (j : Json) : Judges (kindOf j) (IsKindName j) fun e =>
    ¬ IsKindName j ∧ e = if j.isScalar then .unknownKind j else .notAName j := by
  by_cases h : IsKindName j
  · obtain ⟨kind, hk⟩ := (isKindName_iff j).1 h
    rw [hk]
    exact judges_ok.2 ⟨h, fun e he => he.1 h⟩
  · rw [kindOf_eq_error j h]
    exact judges_error.2 ⟨h, fun e => and_iff_right h⟩

theorem truncate_eq_tdiv (x : Binary64) : x.truncate = x.units.tdiv Binary64.unitsPerOne := by
  rw [Binary64.truncate, Binary64.units]
  split
  · rw [Int.neg_tdiv]
    rfl
  · rfl

theorem not_isFinite_of_isNaN {x : Binary64} (h : x.isNaN = true) : ¬ x.isFinite = true := by
  rw [Binary64.isNaN, Bool.and_eq_true, beq_iff_eq] at h
  rw [Binary64.isFinite, bne_iff_ne]
  exact fun finite => finite h.1

theorem lineOf_eq_ok_iff {j : Json} {n : Int} : lineOf j = .ok n ↔ TakesLine j n := by
  constructor
  · intro h
    cases j with
    | int => cases h; exact .int _
    | bool b => cases b <;> cases h <;> constructor
    | float x =>
      rw [lineOf] at h
      split at h
      · next finite =>
        cases h
        rw [truncate_eq_tdiv]
        exact .float finite
      · cases h
    | str s =>
      rw [lineOf] at h
      split at h
      · next number =>
        cases h
        exact .text (Number.ofText_eq_ok_iff.1 number)
      · cases h
      · cases h
    | null | arr | obj => cases h
  · intro h
    cases h with
    | int | true | false => rfl
    | float finite => rw [lineOf, if_pos finite, truncate_eq_tdiv]
    | text number => rw [lineOf, Number.ofText_eq_ok_iff.2 number]

theorem lineOf_eq_error_iff {j : Json} {e : LoadError} : lineOf j = .error e ↔ LineFails j e := by
  constructor
  · intro h
    cases j with
    | int | bool => cases h
    | float x =>
      rw [lineOf] at h
      split at h
      · cases h
      · next finite =>
        cases hn : x.isNaN with
        | true =>
          rw [hn] at h
          cases h
          exact .isNaN hn
        | false =>
          rw [hn] at h
          cases h
          exact .infinite (Bool.eq_false_iff.2 finite) hn
    | str s =>
      rw [lineOf] at h
      split at h
      · cases h
      · next hbad =>
        cases h
        refine .badText (fun n hn => ?_) fun count hcount => ?_
        · rw [Number.ofText_eq_ok_iff.2 hn] at hbad
          cases hbad
        · rw [Number.ofText_eq_tooManyDigits_iff.2 hcount] at hbad
          cases hbad
      · next hlong =>
        cases h
        exact .longText (Number.ofText_eq_tooManyDigits_iff.1 hlong)
    | null => cases h; exact .null
    | arr items => cases h; exact .arr items
    | obj fields => cases h; exact .obj fields
  · intro h
    cases h with
    | null | arr | obj => rfl
    | isNaN hn =>
      rw [lineOf, if_neg (not_isFinite_of_isNaN hn), if_pos hn]
    | infinite finite hn =>
      rw [lineOf, if_neg (Bool.eq_false_iff.1 finite), if_neg (Bool.eq_false_iff.1 hn)]
    | longText digits => rw [lineOf, Number.ofText_eq_tooManyDigits_iff.2 digits]
    | @badText s number digits =>
      rw [lineOf]
      cases ht : Number.ofText s.toList with
      | ok n => exact absurd (Number.ofText_eq_ok_iff.1 ht) (number n)
      | error e =>
        cases e with
        | notANumber => rfl
        | tooManyDigits count =>
          exact absurd (Number.ofText_eq_tooManyDigits_iff.1 ht) (digits count)

theorem judges_lineOf (j : Json) : Judges (lineOf j) (∃ n, TakesLine j n) (LineFails j) :=
  ⟨exists_congr fun _ => lineOf_eq_ok_iff, fun _ => lineOf_eq_error_iff⟩

/-- A token is loaded if it is one, and otherwise fails with its first violation. -/
theorem judges_token (j : Json) : Judges (token j) (IsToken j) (TokenFails j) := by
  cases j with
  | obj fields =>
    -- The fields are read one after another, so the violation is that of the first one that fails.
    -- What is left is to name the cases as the specification does.
    have h := (Judges.required "kind" fields fun j _ => judges_kindOf j).bind fun kind =>
      (judges_required "lexeme" fields).bind fun lexeme =>
        (Judges.required "line" fields fun j _ => judges_lineOf j).map fun line =>
          (⟨kind, lexeme, (Json.field? "literal" fields).getD .null, line⟩ : Token)
    simp only [bind_assoc] at h
    refine h.congr ⟨?_, ?_⟩ fun e => ⟨?_, ?_⟩
    · rintro ⟨⟨kind, hk, known⟩, ⟨lexeme, hl⟩, line, hn, n, number⟩
      exact .token hk known hl hn number
    · rintro ⟨hk, known, hl, hn, number⟩
      exact ⟨⟨_, hk, known⟩, ⟨_, hl⟩, _, hn, _, number⟩
    · rintro ((⟨hk, rfl⟩ | ⟨kind, hk, unknown, rfl⟩) |
        ⟨⟨kind, hk, known⟩, ⟨hl, rfl⟩ | ⟨⟨lexeme, hl⟩, ⟨hn, rfl⟩ | ⟨line, hn, number⟩⟩⟩)
      · exact .noKind hk
      · cases hs : kind.isScalar with
        | true => exact .unknownKind hk hs unknown
        | false => exact .notAName hk hs
      · exact .noLexeme hk known hl
      · exact .noLine hk known hl hn
      · exact .badLine hk known hl hn number
    · intro he
      cases he with
      | notAToken no => exact absurd rfl (no fields)
      | noKind hk => exact .inl (.inl ⟨hk, rfl⟩)
      | notAName hk parts =>
        refine .inl (.inr ⟨_, hk, ?_, by rw [parts]; rfl⟩)
        rintro ⟨name, rfl, -⟩
        cases parts
      | unknownKind hk scalar unknown =>
        exact .inl (.inr ⟨_, hk, unknown, by rw [scalar]; rfl⟩)
      | noLexeme hk known hl => exact .inr ⟨⟨_, hk, known⟩, .inl ⟨hl, rfl⟩⟩
      | noLine hk known hl hn => exact .inr ⟨⟨_, hk, known⟩, .inr ⟨⟨_, hl⟩, .inl ⟨hn, rfl⟩⟩⟩
      | badLine hk known hl hn number =>
        exact .inr ⟨⟨_, hk, known⟩, .inr ⟨⟨_, hl⟩, .inr ⟨_, hn, number⟩⟩⟩
  | null | bool | int | float | str | arr =>
    refine judges_error.2 ⟨nofun, fun e => ⟨?_, ?_⟩⟩
    · rintro ⟨⟩
      rfl
    · rintro rfl
      exact .notAToken nofun

/-- A value is judged as a node. -/
def NodeSpec (j : Json) : Prop := Judges (node j) (IsNode j) (NodeFails j)

/-- The elements of a value are judged as nodes. -/
def ListSpec (j : Json) : Prop := ∀ items, elements? j = some items → ∀ item ∈ items, NodeSpec item

theorem judges_nodes {items : List Json} (h : ∀ item ∈ items, NodeSpec item) :
    Judges (nodes items) (∀ item ∈ items, IsNode item) (FirstFails IsNode NodeFails items) := by
  induction items with
  | nil => exact .nil _
  | cons item items ih =>
    obtain ⟨hi, hs⟩ := List.forall_mem_cons.1 h
    exact hi.cons fun a => (ih hs).map (a :: ·)

/-- A value that is no array has no nodes in it, so only an empty one is a list of nodes. -/
theorem nodeList_eq {j : Json} {items : List Json} (h : elements? j = some items) :
    nodeList j = nodes items := by
  cases j with
  | arr given =>
    cases h
    rfl
  | str s =>
    cases h
    rw [nodeList]
    cases hs : s.toList with
    | nil =>
      rw [String.toList_eq_nil_iff.1 hs]
      rfl
    | cons c cs =>
      have hn : s.isEmpty = false := by
        rw [Bool.eq_false_iff, ne_eq, String.isEmpty_iff]
        rintro rfl
        cases hs
      rw [hn]
      rfl
  | obj fields =>
    cases h
    cases fields <;> rfl
  | null | bool | int | float => cases h

theorem judges_nodeList {j : Json} (h : ListSpec j) :
    Judges (nodeList j) (∃ items, elements? j = some items ∧ ∀ item ∈ items, IsNode item) fun e =>
      elements? j = none ∧ e = .notAList j ∨
        ∃ items, elements? j = some items ∧ FirstFails IsNode NodeFails items e := by
  cases hj : elements? j with
  | none =>
    have he : nodeList j = .error (.notAList j) := by
      cases j with
      | str | arr | obj => cases hj
      | null | bool | int | float => rfl
    rw [he]
    exact judges_error.2 ⟨by simp, by simp⟩
  | some items =>
    rw [nodeList_eq hj]
    exact (judges_nodes (h items hj)).congr (by simp) (by simp)

theorem build_unknown {tag : String} (unknown : layout? tag = none)
    (fields : List (String × Field)) :
    build tag fields = .error (.unknownTag (.str tag)) := by
  unfold build
  split
  case h_14 => rfl
  all_goals cases unknown

/-- Without a tag of the table, there is no node. -/
theorem judges_unknown {fields : List (String × Json)}
    (unknown : ∀ tag, Json.field? "type" fields = some (.str tag) → layout? tag = none) :
    NodeSpec (.obj fields) := by
  -- The tag is missing, or it is no text, or it is a text that is in no row of the table.
  have hn : node (.obj fields) =
      .error (.unknownTag ((Json.field? "type" fields).getD .null)) := by
    rw [node, buildTagged, lookup_nodeFields, ← Json.field?]
    cases ht : Json.field? "type" fields with
    | none => rfl
    | some j =>
      cases j with
      | str tag => exact build_unknown (unknown tag ht) _
      | null | bool | int | float | arr | obj => rfl
  unfold NodeSpec
  rw [hn]
  refine judges_error.2 ⟨?_, fun e => ⟨fun he => ?_, ?_⟩⟩
  · intro hn
    cases hn with
    | node tagged known =>
      rw [unknown _ tagged] at known
      cases known
  · cases he with
    | notANode null no => exact absurd rfl (no fields)
    | unknownTag => rfl
    | field tagged known =>
      rw [unknown _ tagged] at known
      cases known
  · rintro rfl
    exact .unknownTag unknown

section
variable {fields : List (String × Json)} (h : ∀ x ∈ fields, NodeSpec x.2 ∧ ListSpec x.2)
include h

theorem spec_of_field {name : String} {j : Json} (hj : Json.field? name fields = some j) :
    NodeSpec j ∧ ListSpec j := by
  obtain ⟨before, after, rfl, -⟩ := List.lookup_eq_some_iff.1 hj
  exact h _ (List.mem_append_right before List.mem_cons_self)

theorem judges_child (name : String) : Judges (child name (nodeFields fields))
    (Holds fields (name, .child)) (SlotFails fields (name, .child)) := by
  rw [child_nodeFields]
  refine (Judges.required name fields fun j hj => (spec_of_field h hj).1).congr ⟨?_, ?_⟩ fun e =>
    ⟨?_, ?_⟩
  · rintro ⟨j, hj, node⟩
    exact .child hj node
  · intro hs
    cases hs with
    | child hj node => exact ⟨_, hj, node⟩
  · rintro (⟨hj, rfl⟩ | ⟨j, hj, fails⟩)
    · exact .missing nofun hj
    · exact .child hj fails
  · intro he
    cases he with
    | missing required hj => exact .inl ⟨hj, rfl⟩
    | child hj fails => exact .inr ⟨_, hj, fails⟩

theorem judges_childOrAbsent (name : String) : Judges (childOrAbsent name (nodeFields fields))
    (Holds fields (name, .optionalChild)) (SlotFails fields (name, .optionalChild)) := by
  rw [childOrAbsent_nodeFields]
  cases hj : Json.field? name fields with
  | none =>
    refine judges_ok.2 ⟨.optionalChild (by rw [hj]; exact .null), fun e he => ?_⟩
    cases he with
    | missing required => exact required rfl
    | optionalChild field => rw [hj] at field; cases field
  | some j =>
    refine (spec_of_field h hj).1.congr ⟨fun node => .optionalChild (by rwa [hj]), ?_⟩ fun e =>
      ⟨.optionalChild hj, fun he => ?_⟩
    · intro ho
      cases ho with
      | optionalChild node => rwa [hj] at node
    · cases he with
      | missing required => exact absurd rfl required
      | optionalChild field fails =>
        rw [hj] at field
        cases field
        exact fails

theorem judges_bodyOf : Judges (bodyOf (nodeFields fields))
    (Holds fields ("body", .body)) (SlotFails fields ("body", .body)) := by
  rw [bodyOf_nodeFields]
  refine (Judges.required "body" fields fun j hj => judges_nodeList (spec_of_field h hj).2).congr
    ⟨?_, ?_⟩ fun e => ⟨?_, ?_⟩
  · rintro ⟨j, hj, items, list, nodes⟩
    exact .body hj list nodes
  · intro hs
    cases hs with
    | body hj list nodes => exact ⟨_, hj, _, list, nodes⟩
  · rintro (⟨hj, rfl⟩ | ⟨j, hj, ⟨list, rfl⟩ | ⟨_, list, before, item, after, rfl, earlier, fails⟩⟩)
    · exact .missing nofun hj
    · exact .notAList hj list
    · exact .body hj list earlier fails
  · intro he
    cases he with
    | missing required hj => exact .inl ⟨hj, rfl⟩
    | notAList hj list => exact .inr ⟨_, hj, .inl ⟨list, rfl⟩⟩
    | body hj list earlier fails =>
      exact .inr ⟨_, hj, .inr ⟨_, list, _, _, _, rfl, earlier, fails⟩⟩

omit h in
theorem judges_tokenOf (name : String) : Judges (tokenOf name (nodeFields fields))
    (Holds fields (name, .token)) (SlotFails fields (name, .token)) := by
  rw [tokenOf_nodeFields]
  refine (Judges.required name fields fun j _ => judges_token j).congr ⟨?_, ?_⟩ fun e => ⟨?_, ?_⟩
  · rintro ⟨j, hj, token⟩
    exact .token hj token
  · intro hs
    cases hs with
    | token hj token => exact ⟨_, hj, token⟩
  · rintro (⟨hj, rfl⟩ | ⟨j, hj, fails⟩)
    · exact .missing nofun hj
    · exact .token hj fails
  · intro he
    cases he with
    | missing required hj => exact .inl ⟨hj, rfl⟩
    | token hj fails => exact .inr ⟨_, hj, fails⟩

omit h in
theorem judges_requiredField (name : String) : Judges (requiredField name (nodeFields fields))
    (Holds fields (name, .literal)) (SlotFails fields (name, .literal)) := by
  have hm {β : Type} (f : Json → β) (x : Except LoadError Json) :
      x.map f = x >>= fun j => .ok (f j) := by
    cases x <;> rfl
  rw [requiredField_nodeFields, hm]
  refine ((judges_required name fields).map _).congr ⟨?_, ?_⟩ fun e => ⟨?_, ?_⟩
  · rintro ⟨j, hj⟩
    exact .literal hj
  · intro hs
    cases hs with
    | literal hj => exact ⟨_, hj⟩
  · rintro ⟨hj, rfl⟩
    exact .missing nofun hj
  · intro he
    cases he with
    | missing required hj => exact ⟨hj, rfl⟩

/-- The fields of a node are judged in the order of the table. -/
theorem judges_build {tag : String} {slots : List (String × Slot)}
    (known : layout? tag = some slots) :
    Judges (build tag (nodeFields fields)) (∀ slot ∈ slots, Holds fields slot)
      (FirstFails (Holds fields) (SlotFails fields) slots) := by
  have hc := judges_child h
  have ho := judges_childOrAbsent h
  have hb := judges_bodyOf h
  have ht (name : String) : Judges (tokenOf name (nodeFields fields)) _ _ := judges_tokenOf name
  unfold layout? at known
  split at known <;> cases known
  · exact (hc _).cons fun _ => .nil _
  · exact (hc _).cons fun _ => .nil _
  · exact (hc _).cons fun _ => .nil _
  · exact (ht _).cons fun _ => (ho _).cons fun _ => .nil _
  · exact (hc _).cons fun _ => (hc _).cons fun _ => (ho _).cons fun _ => .nil _
  · exact (ht _).cons fun _ => (hc _).cons fun _ => (hc _).cons fun _ => hb.cons fun _ => .nil _
  · exact (hc _).cons fun _ => hb.cons fun _ => .nil _
  · exact (judges_requiredField _).cons fun _ => .nil _
  · exact (hc _).cons fun _ => (ht _).cons fun _ => (hc _).cons fun _ => .nil _
  · exact (hc _).cons fun _ => (ht _).cons fun _ => (hc _).cons fun _ => .nil _
  · exact (ht _).cons fun _ => (hc _).cons fun _ => .nil _
  · exact (ht _).cons fun _ => .nil _
  · exact (ht _).cons fun _ => (hc _).cons fun _ => .nil _

theorem nodeSpec_obj : NodeSpec (.obj fields) := by
  -- The layout of a tag is unique, so the one that is looked up is the one of the specification.
  by_cases known : ∃ tag slots,
      Json.field? "type" fields = some (.str tag) ∧ layout? tag = some slots
  · obtain ⟨tag, slots, tagged, known⟩ := known
    have hn : node (.obj fields) = build tag (nodeFields fields) := by
      rw [node, buildTagged, lookup_nodeFields, ← Json.field?, tagged]
      rfl
    unfold NodeSpec
    rw [hn]
    refine (judges_build h known).congr ⟨.node tagged known, ?_⟩ fun e => ⟨?_, fun he => ?_⟩
    · intro hn
      cases hn with
      | node tagged' known' holds =>
        cases tagged.symm.trans tagged'
        cases known.symm.trans known'
        exact holds
    · rintro ⟨before, slot, after, rfl, earlier, fails⟩
      exact .field tagged known earlier fails
    · cases he with
      | notANode null no => exact absurd rfl (no fields)
      | unknownTag unknown =>
        rw [unknown _ tagged] at known
        cases known
      | field tagged' known' earlier fails =>
        cases tagged.symm.trans tagged'
        cases known.symm.trans known'
        exact ⟨_, _, _, rfl, earlier, fails⟩
  · refine judges_unknown fun tag tagged => ?_
    cases hs : layout? tag with
    | none => rfl
    | some slots => exact absurd ⟨tag, slots, tagged, hs⟩ known

end

theorem nodeSpec_scalar {j : Json} (null : j ≠ .null) (no : ∀ fields, j ≠ .obj fields) :
    NodeSpec j := by
  have hn : node j = .error .notANode := by
    cases j with
    | null => exact absurd rfl null
    | obj fields => exact absurd rfl (no fields)
    | bool | int | float | str | arr => rfl
  unfold NodeSpec
  rw [hn]
  refine judges_error.2 ⟨?_, fun e => ⟨fun he => ?_, ?_⟩⟩
  · rintro (_ | _)
    · exact null rfl
    · exact no _ rfl
  · cases he with
    | notANode => rfl
    | unknownTag | field => exact absurd rfl (no _)
  · rintro rfl
    exact .notANode null no

theorem nodeSpec_null : NodeSpec .null := by
  refine judges_ok.2 ⟨.null, fun e he => ?_⟩
  cases he with
  | notANode null => exact null rfl

mutual
theorem node_spec : ∀ j : Json, NodeSpec j
  | .null => nodeSpec_null
  | .obj fields => nodeSpec_obj (fields_spec fields)
  | .bool _ | .int _ | .float _ | .str _ | .arr _ => nodeSpec_scalar nofun nofun
theorem fields_spec : ∀ fields : List (String × Json), ∀ x ∈ fields, NodeSpec x.2 ∧ ListSpec x.2
  | [] => List.forall_mem_nil _
  | (_, v) :: fields => List.forall_mem_cons.2 ⟨⟨node_spec v, list_spec v⟩, fields_spec fields⟩
theorem list_spec : ∀ j : Json, ListSpec j
  | .arr items => by
    rintro _ ⟨⟩
    exact items_spec items
  | .str s => by
    rintro _ ⟨⟩
    exact List.forall_mem_map.2 fun c _ => nodeSpec_scalar nofun nofun
  | .obj fields => by
    rintro _ ⟨⟩
    exact List.forall_mem_map.2 fun field _ => nodeSpec_scalar nofun nofun
  | .null | .bool _ | .int _ | .float _ => nofun
theorem items_spec : ∀ items : List Json, ∀ item ∈ items, NodeSpec item
  | [] => List.forall_mem_nil _
  | item :: items => List.forall_mem_cons.2 ⟨node_spec item, items_spec items⟩
end

/-- A document is loaded exactly if it has the format, and otherwise the error is that of the first
violation, when the fields are looked at in the order of the table. -/
theorem judges_program (j : Json) : Judges (program j) (IsDocument j) (DocumentFails j) := by
  by_cases tagged : ∃ fields, j = .obj fields ∧ Json.field? "type" fields = some (.str "Program")
  · obtain ⟨fields, rfl, tagged⟩ := tagged
    rw [program, if_pos tagged, ← bodyOf_nodeFields]
    refine (judges_bodyOf (fields_spec fields)).congr ⟨.program tagged, ?_⟩ fun e =>
      ⟨.body tagged, fun he => ?_⟩
    · rintro ⟨-, body⟩
      exact body
    · cases he with
      | notAProgram no => exact absurd tagged (no fields rfl)
      | body tagged fails => exact fails
  · have hp : program j = .error .notAProgram := by
      cases j with
      | obj fields =>
        rw [program, if_neg]
        exact fun h => tagged ⟨fields, rfl, h⟩
      | null | bool | int | float | str | arr => rfl
    rw [hp]
    refine judges_error.2 ⟨?_, fun e => ⟨fun he => ?_, ?_⟩⟩
    · rintro ⟨h, -⟩
      exact tagged ⟨_, rfl, h⟩
    · cases he with
      | notAProgram => rfl
      | body h => exact absurd ⟨_, rfl, h⟩ tagged
    · rintro rfl
      exact .notAProgram fun fields hj h => tagged ⟨fields, hj, h⟩

end LetLang.Document
