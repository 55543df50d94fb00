import LetLang.Proofs.Lexing.LineBreaks
import Mathlib.Data.Nat.Digits.Defs

namespace LetLang

namespace TokenKind
open Piece

/-- The tokens that are neither words nor values. -/
def signs : List (List Char × TokenKind) := [
  (['('], .leftParen), ([')'], .rightParen), ([','], .comma), (['.'], .dot),
  (['.', '.'], .doubleDot), ([':'], .colon), ([';'], .semicolon), (['+'], .plus), (['-'], .minus),
  (['*'], .asterisk), (['/'], .slash), (['^'], .caret), (['*', '*'], .caret), (['!'], .bang),
  (['?'], .questionMark), (['='], .equal), (['=', '='], .equalEqual), (['!', '='], .notEqual),
  (['>'], .greater), (['>', '='], .greaterEqual), (['<'], .less), (['<', '='], .lessEqual)]

/-- The texts of the tokens of a kind. -/
inductive Spells : TokenKind → List Char → Prop
  | sign {kind : TokenKind} {text : List Char} (listed : (text, kind) ∈ signs) : Spells kind text
  | keyword {kind : TokenKind} {text : List Char} (listed : (String.ofList text, kind) ∈ keywords) :
    Spells kind text
  | name {c : Char} {cs : List Char} (first : isLetter c = true)
    (more : ∀ d ∈ cs, isWordChar d = true)
    (free : ∀ kind, (String.ofList (c :: cs), kind) ∉ keywords) : Spells .identifier (c :: cs)
  | number {text : List Char} (digits : ∀ c ∈ text, isDigit c = true) (proper : ∃ c ∈ text, c ≠ '_')
    (few : (text.filter (· != '_')).length ≤ 4300) : Spells .number text
  | string {inner : List Char} (inside : '\x22' ∉ inner) :
    Spells .string ('\x22' :: (inner ++ ['\x22']))

def isWord (kind : TokenKind) : Bool := kind == .identifier || keywords.any (·.2 == kind)

/-- The value of decimal digits, with the last one for the ones. Underscores do not count. -/
def decimalValue (text : List Char) : Nat :=
  Nat.ofDigits 10 ((text.filter (· != '_')).reverse.map fun c => c.toNat - '0'.toNat)

/-- What a text of a kind means: a number its value, a string its inside, a name itself, and any
other text nothing. -/
def Means (kind : TokenKind) (text : List Char) (literal : Json) : Prop :=
  match kind with
  | .number => literal = .int (decimalValue text)
  | .string => ∃ inner, text = '\x22' :: (inner ++ ['\x22']) ∧ literal = .str (String.ofList inner)
  | .identifier => literal = .str (String.ofList text)
  | _ => literal = .null

/-- Would the token go on with the character? -/
def goesOn (kind : TokenKind) (c : Char) : Bool :=
  match kind with
  | .number => isDigit c
  | .equal | .bang | .less | .greater => c == '='
  | .dot => c == '.'
  | .asterisk => c == '*'
  | .slash => c == '/'
  | kind => kind.isWord && isWordChar c

end TokenKind

namespace Piece

/-- May the piece stand in front of the rest of a text? -/
inductive Fits : Piece → List Char → Prop
  | token {kind : TokenKind} {text rest : List Char} (spelled : kind.Spells text)
    (ends : ∀ c ∈ rest.head?, kind.goesOn c = false) : Fits (.token kind text) rest
  | blank {c : Char} {rest : List Char} (h : isBlank c = true) : Fits (.blank c) rest
  | comment {text rest : List Char} (line : '\n' ∉ text) (ends : ∀ c ∈ rest.head?, c = '\n') :
    Fits (.comment ('/' :: '/' :: text)) rest
  | stray {c : Char} {rest : List Char} (blank : isBlank c = false)
    (start : ∀ kind text, ¬ TokenKind.Spells kind (c :: text)) : Fits (.stray c) rest
  | badNumber {text rest : List Char} (start : text ≠ []) (digits : ∀ c ∈ text, isDigit c = true)
    (size : (∀ c ∈ text, c = '_') ∨ 4300 < (text.filter (· != '_')).length)
    (ends : ∀ c ∈ rest.head?, isDigit c = false) : Fits (.badNumber text) rest
  | openString {text : List Char} (inside : '\x22' ∉ text) : Fits (.openString ('\x22' :: text)) []

/-- The pieces are the text, and each of them fits in front of the others. -/
inductive IsDivision : List Char → List Piece → Prop
  | nil : IsDivision [] []
  | cons {p : Piece} {rest : List Char} {ps : List Piece} (fits : p.Fits rest)
    (others : IsDivision rest ps) : IsDivision (p.text ++ rest) (p :: ps)

/-- The tokens and the errors that pieces stand for, each on the line after the line feeds before
it. At the end there is a token for the end of input. -/
inductive Reads : List Char → List Piece → List Token → List Report → Prop
  | nil {before : List Char} :
    Reads before [] [⟨.eof, .str "", .null, (1 + before.count '\n' : Nat)⟩] []
  | token {before text : List Char} {kind : TokenKind} {literal : Json} {ps : List Piece}
    {ts : List Token} {rs : List Report} (means : kind.Means text literal)
    (others : Reads (before ++ text) ps ts rs) :
    Reads before (.token kind text :: ps)
      (⟨kind, .str (String.ofList text), literal, (1 + before.count '\n' : Nat)⟩ :: ts) rs
  | blank {before : List Char} {c : Char} {ps : List Piece} {ts : List Token} {rs : List Report}
    (others : Reads (before ++ [c]) ps ts rs) : Reads before (.blank c :: ps) ts rs
  | comment {before text : List Char} {ps : List Piece} {ts : List Token} {rs : List Report}
    (others : Reads (before ++ text) ps ts rs) : Reads before (.comment text :: ps) ts rs
  | stray {before : List Char} {c : Char} {ps : List Piece} {ts : List Token} {rs : List Report}
    (others : Reads (before ++ [c]) ps ts rs) :
    Reads before (.stray c :: ps) ts
      (⟨(1 + before.count '\n' : Nat), "at '" ++ String.singleton c ++ "'",
        "Unexpected character."⟩ :: rs)
  | badNumber {before text : List Char} {ps : List Piece} {ts : List Token} {rs : List Report}
    (others : Reads (before ++ text) ps ts rs) :
    Reads before (.badNumber text :: ps) ts
      (⟨(1 + before.count '\n' : Nat), "at '" ++ String.ofList text ++ "'",
        "Invalid number literal."⟩ :: rs)
  | openString {before text : List Char} {ps : List Piece} {ts : List Token} {rs : List Report}
    (others : Reads (before ++ text) ps ts rs) :
    Reads before (.openString text :: ps) ts
      (⟨(1 + before.count '\n' : Nat), "at end", "Unterminated string."⟩ :: rs)

theorem isPlain_of_isWordChar {c : Char} (h : isWordChar c = true) : Strict.IsPlain c := by
  refine ⟨?_, ?_, ?_, ?_, ?_⟩
  · rw [Bool.eq_false_iff]
    intro hb
    simp only [isBlank, Bool.or_eq_true, beq_iff_eq] at hb
    obtain ((rfl | rfl) | rfl) | rfl := hb <;> exact absurd h (by decide)
  · rintro rfl
    exact absurd h (by decide)
  · rintro rfl
    exact absurd h (by decide)
  · unfold single?
    split <;> first | rfl | exact absurd h (by decide)
  · unfold pair?
    split <;> first | rfl | exact absurd h (by decide)

theorem cut_of_isPlain {c : Char} (h : Strict.IsPlain c) (cs : List Char) :
    cut c cs = if isDigit c then cutNumber c cs else if isLetter c then cutWord c cs
      else (.stray c, cs) := by
  rw [cut, h.single, h.pair]
  simp [h.slash, h.quote, h.blank]

theorem cut_digit {c : Char} (h : isDigit c = true) (cs : List Char) :
    cut c cs = cutNumber c cs := by
  have hp : Strict.IsPlain c := isPlain_of_isWordChar (by simp [isWordChar, h])
  rw [cut_of_isPlain hp, if_pos h]

theorem cut_letter {c : Char} (h : isLetter c = true) (cs : List Char) :
    cut c cs = cutWord c cs := by
  have hp : Strict.IsPlain c := isPlain_of_isWordChar (by simp [isWordChar, h])
  have hd : isDigit c = false :=
    Bool.eq_false_iff.2 fun hd => by simp [Strict.not_isLetter_of_isDigit hd] at h
  rw [cut_of_isPlain hp, if_neg (by simp [hd]), if_pos h]

theorem ofWord_of_keyword : ∀ w ∈ TokenKind.keywords, TokenKind.ofWord w.1 = w.2 := by decide

theorem ofWord_of_free {word : String} (h : ∀ kind, (word, kind) ∉ TokenKind.keywords) :
    TokenKind.ofWord word = .identifier := by
  have hl : TokenKind.keywords.lookup word = none := by
    refine List.lookup_eq_none_iff.2 fun w hw => bne_iff_ne.2 ?_
    rintro rfl
    exact h w.2 hw
  rw [TokenKind.ofWord, hl]
  rfl

/-- The texts of words. -/
def IsWordText (text : List Char) : Prop :=
  ∃ c cs, text = c :: cs ∧ isLetter c = true ∧ ∀ d ∈ cs, isWordChar d = true

theorem isWordText_of_keyword : ∀ w ∈ TokenKind.keywords, IsWordText w.1.toList := by
  have h : ∀ w ∈ TokenKind.keywords, w.1.toList.head?.any isLetter = true := by decide
  intro w hw
  obtain ⟨c, hc, hl⟩ := (Option.any_eq_true _ _).1 (h w hw)
  obtain ⟨cs, hcs⟩ := List.head?_eq_some_iff.1 hc
  refine ⟨c, cs, hcs, hl, fun d hd => Strict.isWordChar_of_keyword w hw d ?_⟩
  rw [hcs]
  exact List.mem_cons_of_mem c hd

theorem spells_word {c : Char} {cs : List Char} (first : isLetter c = true)
    (more : ∀ d ∈ cs, isWordChar d = true) :
    (TokenKind.ofWord (String.ofList (c :: cs))).Spells (c :: cs) := by
  by_cases h : ∃ kind, (String.ofList (c :: cs), kind) ∈ TokenKind.keywords
  · obtain ⟨kind, hk⟩ := h
    rw [ofWord_of_keyword _ hk]
    exact .keyword hk
  · rw [not_exists] at h
    rw [ofWord_of_free h]
    exact .name first more h

theorem goesOn_of_isWord {kind : TokenKind} (h : kind.isWord = true) (c : Char) :
    kind.goesOn c = isWordChar c := by
  cases kind <;> first | rfl | exact absurd h (by decide)

theorem isWord_of_keyword : ∀ w ∈ TokenKind.keywords, w.2.isWord = true := by decide

/-- A sign is alone, or a pair, or the first of a pair without the second, or a slash. -/
inductive IsSign : TokenKind → List Char → Prop
  | single {c : Char} {kind : TokenKind} (h : single? c = some kind) : IsSign kind [c]
  | both {c second : Char} {both alone : TokenKind} (h : pair? c = some ⟨second, both, alone⟩) :
    IsSign both [c, second]
  | alone {c second : Char} {both alone : TokenKind} (h : pair? c = some ⟨second, both, alone⟩) :
    IsSign alone [c]
  | slash : IsSign .slash ['/']

theorem isSign_of_mem : ∀ x ∈ TokenKind.signs, IsSign x.2 x.1 := by
  unfold TokenKind.signs
  repeat' first | exact List.forall_mem_nil _ | refine List.forall_mem_cons.2 ⟨?_, ?_⟩
  all_goals first | exact .single rfl | exact .both rfl | exact .alone rfl | exact .slash

theorem single?_of_pair? {c : Char} {pair : Pair} (h : pair? c = some pair) : single? c = none := by
  unfold pair? at h
  split at h <;> cases h <;> rfl

theorem goesOn_alone {c : Char} {pair : Pair} (h : pair? c = some pair) (d : Char) :
    pair.alone.goesOn d = (d == pair.second) := by
  unfold pair? at h
  split at h <;> cases h <;> rfl

theorem spells_single {c : Char} {kind : TokenKind} (h : single? c = some kind) :
    kind.Spells [c] ∧ ∀ d, kind.goesOn d = false := by
  unfold single? at h
  split at h <;> cases h <;> exact ⟨.sign (by decide), fun _ => rfl⟩

theorem spells_pair {c : Char} {pair : Pair} (h : pair? c = some pair) :
    pair.both.Spells [c, pair.second] ∧ (∀ d, pair.both.goesOn d = false) ∧
      pair.alone.Spells [c] := by
  unfold pair? at h
  split at h <;> cases h <;>
    exact ⟨.sign (by decide), fun _ => rfl, .sign (by decide)⟩

theorem isNumber_iff_digits {text : List Char} :
    isNumber text = true ↔ (∃ c ∈ text, c ≠ '_') ∧ (text.filter (· != '_')).length ≤ 4300 := by
  rw [isNumber, Bool.and_eq_true, Bool.not_eq_true', List.isEmpty_eq_false_iff, decide_eq_true_iff]
  apply and_congr_left'
  simp [withoutUnderscores, List.filter_eq_nil_iff]

/-- A number is not meant by a text with underscores only, or with too many digits. -/
theorem isNumber_eq_false_iff {text : List Char} : isNumber text = false ↔
    (∀ c ∈ text, c = '_') ∨ 4300 < (text.filter (· != '_')).length := by
  rw [Bool.eq_false_iff, Ne, isNumber_iff_digits, not_and_or, Nat.not_le]
  simp

theorem decimalValue_eq (text : List Char) :
    (TokenKind.decimalValue text : Int) = numberValue text := by
  rw [TokenKind.decimalValue, Nat.ofDigits_eq_foldr, List.foldr_map, List.foldr_reverse,
    numberValue, Number.ofDigits]
  congr 2
  funext n c
  exact Nat.add_comm _ _

theorem fits_cutPair {c : Char} {pair : Pair} (h : pair? c = some pair) (cs : List Char) :
    (cutPair c pair cs).1.Fits (cutPair c pair cs).2 := by
  obtain ⟨hboth, hends, halone⟩ := spells_pair h
  cases cs with
  | nil => exact .token halone nofun
  | cons d cs =>
    unfold cutPair
    dsimp only
    split
    · next hd => exact .token (hd ▸ hboth) fun e _ => hends e
    · next hd =>
      refine .token halone ?_
      rintro _ ⟨⟩
      rw [goesOn_alone h]
      exact beq_eq_false_iff_ne.2 hd

theorem fits_cutSlash (cs : List Char) : (cutSlash cs).1.Fits (cutSlash cs).2 := by
  unfold cutSlash
  split
  · next rest =>
    refine .comment (fun hm => ?_) fun d hd => ?_
    · simpa using List.mem_takeWhile_imp hm
    · simpa using Text.not_head_dropWhile (· != '\n') rest d hd
  · next h =>
    refine .token (.sign (by decide)) fun d hd => beq_eq_false_iff_ne.2 ?_
    rintro rfl
    obtain ⟨rest, rfl⟩ := List.head?_eq_some_iff.1 hd
    exact h rest rfl

theorem fits_cutString (cs : List Char) : (cutString cs).1.Fits (cutString cs).2 := by
  have hi : '\x22' ∉ cs.takeWhile (· != '\x22') := fun hm => by
    simpa using List.mem_takeWhile_imp hm
  unfold cutString
  dsimp only
  split
  · next close rest hr =>
    have hc := Text.not_head_dropWhile (· != '\x22') cs close (by rw [hr]; rfl)
    obtain rfl : close = '\x22' := by simpa using hc
    exact .token (.string hi) fun d _ => rfl
  · exact .openString hi

theorem fits_cutNumber {c : Char} (h : isDigit c = true) (cs : List Char) :
    (cutNumber c cs).1.Fits (cutNumber c cs).2 := by
  have hd : ∀ d ∈ c :: cs.takeWhile isDigit, isDigit d = true :=
    List.forall_mem_cons.2 ⟨h, fun d hm => List.mem_takeWhile_imp hm⟩
  have he := Text.not_head_dropWhile isDigit cs
  unfold cutNumber
  dsimp only
  split
  · next hs =>
    obtain ⟨proper, few⟩ := isNumber_iff_digits.1 hs
    exact .token (.number hd proper few) he
  · next hs =>
    exact .badNumber (List.cons_ne_nil _ _) hd (isNumber_eq_false_iff.1 (by simpa using hs)) he

theorem isWord_ofWord (word : String) : (TokenKind.ofWord word).isWord = true :=
  TokenKind.ofWord_induction (P := fun kind => kind.isWord = true) rfl isWord_of_keyword word

theorem fits_cutWord {c : Char} (h : isLetter c = true) (cs : List Char) :
    (cutWord c cs).1.Fits (cutWord c cs).2 := by
  refine .token (spells_word h fun d hm => List.mem_takeWhile_imp hm) fun d hd => ?_
  rw [goesOn_of_isWord (isWord_ofWord _)]
  exact Text.not_head_dropWhile isWordChar cs d hd

/-- Any other character starts no token. -/
theorem not_spells {c : Char} (h : Strict.IsPlain c) (hl : isLetter c = false)
    (hd : isDigit c = false) (kind : TokenKind) (text : List Char) : ¬ kind.Spells (c :: text) := by
  intro hs
  generalize ht : c :: text = t at hs
  -- Each kind of token has its own first characters, none of which is this one.
  cases hs with
  | sign listed =>
    have hsign := isSign_of_mem _ listed
    subst ht
    cases hsign with
    | single hc => simp [h.single] at hc
    | both hc | alone hc => simp [h.pair] at hc
    | slash => exact h.slash rfl
  | keyword listed =>
    obtain ⟨d, ds, htext, hletter, -⟩ := isWordText_of_keyword _ listed
    rw [String.toList_ofList, ← ht] at htext
    cases htext
    simp [hl] at hletter
  | name first more free =>
    cases ht
    simp [hl] at first
  | number digits =>
    subst ht
    simp [hd] at digits
  | string inside =>
    cases ht
    exact h.quote rfl

theorem fits_cut (c : Char) (cs : List Char) : (cut c cs).1.Fits (cut c cs).2 := by
  unfold cut
  split
  · next kind h =>
    obtain ⟨hs, he⟩ := spells_single h
    exact .token hs fun d _ => he d
  · next pair _ h => exact fits_cutPair h cs
  · next hs hp =>
    split
    · exact fits_cutSlash cs
    split
    · exact fits_cutString cs
    split
    · next hb => exact .blank hb
    split
    · next hd => exact fits_cutNumber hd cs
    split
    · next hl => exact fits_cutWord hl cs
    · next hslash hquote hb hd hl =>
      have hb : isBlank c = false := by simpa using hb
      have hplain : Strict.IsPlain c := ⟨hb, hslash, hquote, hs, hp⟩
      exact .stray hb (not_spells hplain (by simpa using hl) (by simpa using hd))

section
variable {text rest : List Char}

theorem ofSource_digits (start : text ≠ []) (digits : ∀ c ∈ text, isDigit c = true)
    (ends : ∀ d ∈ rest.head?, isDigit d = false) :
    ofSource (text ++ rest) =
      (if isNumber text then .token .number text else .badNumber text) :: ofSource rest := by
  obtain ⟨c, cs, rfl⟩ := List.exists_cons_of_ne_nil start
  obtain ⟨hc, hcs⟩ := List.forall_mem_cons.1 digits
  obtain ⟨ht, hr⟩ := Text.span_of_ends hcs ends
  rw [List.cons_append, ofSource_cons, cut_digit hc, cutNumber, ht, hr]

theorem ofSource_word (h : IsWordText text) (ends : ∀ d ∈ rest.head?, isWordChar d = false) :
    ofSource (text ++ rest) = .token (.ofWord (String.ofList text)) text :: ofSource rest := by
  obtain ⟨c, cs, rfl, hc, hcs⟩ := h
  obtain ⟨ht, hr⟩ := Text.span_of_ends hcs ends
  rw [List.cons_append, ofSource_cons, cut_letter hc, cutWord, ht, hr]

theorem ofSource_string {inner : List Char} (inside : '\x22' ∉ inner) (rest : List Char) :
    ofSource ('\x22' :: (inner ++ ['\x22']) ++ rest) =
      .token .string ('\x22' :: (inner ++ ['\x22'])) :: ofSource rest := by
  have hp : ∀ c ∈ inner, (c != '\x22') = true := fun c hc => by
    simpa using ne_of_mem_of_not_mem hc inside
  obtain ⟨ht, hr⟩ := @Text.span_of_ends (· != '\x22') inner ('\x22' :: rest) hp (by simp)
  have hcut : cut '\x22' (inner ++ '\x22' :: rest) = cutString (inner ++ '\x22' :: rest) := rfl
  rw [List.cons_append, List.append_assoc, List.singleton_append, ofSource_cons, hcut, cutString,
    ht, hr]

theorem ofSource_openString {inner : List Char} (inside : '\x22' ∉ inner) :
    ofSource ('\x22' :: inner) = [.openString ('\x22' :: inner)] := by
  have hp : ∀ c ∈ inner, (c != '\x22') = true := fun c hc => by
    simpa using ne_of_mem_of_not_mem hc inside
  have hcut : cut '\x22' inner = cutString inner := rfl
  rw [ofSource_cons, hcut, cutString, List.takeWhile_eq_self_iff.2 hp,
    List.dropWhile_eq_nil_iff.2 hp]
  rfl

theorem ofSource_comment (line : '\n' ∉ text) (ends : ∀ c ∈ rest.head?, c = '\n') :
    ofSource ('/' :: '/' :: text ++ rest) = .comment ('/' :: '/' :: text) :: ofSource rest := by
  have hp : ∀ c ∈ text, (c != '\n') = true := fun c hc => by
    simpa using ne_of_mem_of_not_mem hc line
  obtain ⟨ht, hr⟩ := @Text.span_of_ends (· != '\n') text rest hp (by simpa using ends)
  have hcut : cut '/' ('/' :: (text ++ rest)) = cutSlash ('/' :: (text ++ rest)) := rfl
  rw [List.cons_append, List.cons_append, ofSource_cons, hcut, cutSlash, ht, hr]

theorem ofSource_sign {kind : TokenKind} (h : IsSign kind text)
    (ends : ∀ d ∈ rest.head?, kind.goesOn d = false) :
    ofSource (text ++ rest) = .token kind text :: ofSource rest := by
  cases h with
  | single h =>
    rw [List.singleton_append, ofSource_cons, cut, h]
  | both h =>
    rw [List.cons_append, List.singleton_append, ofSource_cons, cut, single?_of_pair? h, h]
    simp [cutPair]
  -- The first character of two stands alone if the second one does not follow.
  | alone h =>
    rw [List.singleton_append, ofSource_cons, cut, single?_of_pair? h, h]
    cases rest with
    | nil => rfl
    | cons d rest =>
      have hd : kind.goesOn d = false := ends d rfl
      rw [goesOn_alone h, beq_eq_false_iff_ne] at hd
      simp [cutPair, hd]
  | slash =>
    have hcut : cut '/' rest = cutSlash rest := rfl
    rw [List.singleton_append, ofSource_cons, hcut]
    cases rest with
    | nil => rfl
    | cons d rest =>
      have hd : (d == '/') = false := ends d rfl
      simp [cutSlash, beq_eq_false_iff_ne.1 hd]

end

theorem isNumber_zero {c : Char} (h : isDigit c = true) :
    TokenKind.Spells .number [c, '0'] := by
  refine .number (by simp [h, show isDigit '0' = true from rfl]) ⟨'0', by simp, by decide⟩ ?_
  exact (List.length_filter_le _ _).trans (show 2 ≤ 4300 by decide)

/-- A character that starts no token is cut off alone. -/
theorem cut_stray {c : Char} (hb : isBlank c = false)
    (start : ∀ kind text, ¬ TokenKind.Spells kind (c :: text)) (cs : List Char) :
    cut c cs = (.stray c, cs) := by
  have hsingle : single? c = none :=
    Option.eq_none_iff_forall_ne_some.2 fun kind h => start kind [] (spells_single h).1
  have hpair : pair? c = none :=
    Option.eq_none_iff_forall_ne_some.2 fun pair h => start pair.alone [] (spells_pair h).2.2
  have hslash : c ≠ '/' := by
    rintro rfl
    exact start .slash [] (.sign (by decide))
  have hquote : c ≠ '\x22' := by
    rintro rfl
    exact start .string ['\x22'] (.string List.not_mem_nil)
  have hd : ¬ isDigit c = true := fun h => start .number ['0'] (isNumber_zero h)
  have hl : ¬ isLetter c = true := fun h => start _ [] (spells_word h (List.forall_mem_nil _))
  rw [cut_of_isPlain ⟨hb, hslash, hquote, hsingle, hpair⟩, if_neg hd, if_neg hl]

theorem ofSource_of_fits {p : Piece} {rest : List Char} (h : p.Fits rest) :
    ofSource (p.text ++ rest) = p :: ofSource rest := by
  -- Each way of fitting is one way of cutting, which takes the longest text that there is.
  cases h with
  | @token kind text _ spelled ends =>
    cases spelled with
    | sign listed => exact ofSource_sign (isSign_of_mem _ listed) ends
    | keyword listed =>
      have hword : kind.isWord = true := isWord_of_keyword _ listed
      have htext := isWordText_of_keyword _ listed
      have hkind : TokenKind.ofWord (String.ofList text) = kind := ofWord_of_keyword _ listed
      rw [String.toList_ofList] at htext
      have hends : ∀ d ∈ rest.head?, isWordChar d = false := fun d hd => by
        rw [← goesOn_of_isWord hword, ends d hd]
      rw [Piece.text, ofSource_word htext hends, hkind]
    | name first more free =>
      rw [Piece.text, ofSource_word ⟨_, _, rfl, first, more⟩ ends, ofWord_of_free free]
    | number digits proper few =>
      have hne : text ≠ [] := by
        obtain ⟨c, hc, -⟩ := proper
        exact List.ne_nil_of_mem hc
      rw [Piece.text, ofSource_digits hne digits ends,
        if_pos (isNumber_iff_digits.2 ⟨proper, few⟩)]
    | string inside => exact ofSource_string inside rest
  | blank hb => exact (ofSource_cons _ rest).trans (by rw [cut_of_isBlank hb])
  | comment line ends => exact ofSource_comment line ends
  | stray hb start => exact (ofSource_cons _ rest).trans (by rw [cut_stray hb start])
  | badNumber start digits size ends =>
    rw [Piece.text, ofSource_digits start digits ends,
      if_neg (by rw [isNumber_eq_false_iff.2 size]; exact Bool.false_ne_true)]
  | openString inside =>
    rw [Piece.text, List.append_nil, ofSource_openString inside]
    rfl

/-- There is exactly one division of a text: what it is cut into. -/
theorem isDivision_iff {source : List Char} {ps : List Piece} :
    IsDivision source ps ↔ ps = ofSource source := by
  constructor
  · intro h
    induction h with
    | nil => rfl
    | cons fits others ih => rw [ofSource_of_fits fits, ih]
  · rintro rfl
    obtain ⟨n, hn⟩ : ∃ n, source.length ≤ n := ⟨_, Nat.le_refl _⟩
    induction n generalizing source with
    | zero =>
      have hs : source = [] := List.length_eq_zero_iff.1 (Nat.le_zero.1 hn)
      subst hs
      exact .nil
    | succ n ih =>
      cases source with
      | nil => exact .nil
      | cons c cs =>
        have hl := length_cut c cs
        have h := IsDivision.cons (fits_cut c cs) (ih (by omega))
        rwa [text_cut, ← ofSource_cons] at h

/-- Pieces with what stands before each of them. -/
def placed (before : List Char) : List Piece → List (List Char × Piece)
  | [] => []
  | p :: ps => (before, p) :: placed (before ++ p.text) ps

/-- A piece is on the line after the line feeds before it. -/
theorem numbered_eq_placed (before : List Char) (ps : List Piece) :
    numbered (1 + before.count '\n') ps =
      (placed before ps).map fun x => (1 + x.1.count '\n', x.2) := by
  induction ps generalizing before with
  | nil => rfl
  | cons p ps ih =>
    rw [numbered, placed, List.map_cons, ← ih, List.count_append, Nat.add_assoc]
    rfl

theorem filterMap_numbered {α : Type} (f : Nat × Piece → Option α) (ps : List Piece) :
    (numbered 1 ps).filterMap f =
      (placed [] ps).filterMap fun x => f (1 + x.1.count '\n', x.2) := by
  have h := numbered_eq_placed [] ps
  rw [List.count_nil, Nat.add_zero] at h
  rw [h, List.filterMap_map]
  rfl

end Piece

namespace TokenKind
open Piece

theorem Spells.exists_inner {text : List Char} (h : Spells .string text) :
    ∃ inner, text = '\x22' :: (inner ++ ['\x22']) := by
  cases h with
  | sign listed => simp [signs] at listed
  | keyword listed => simp [keywords] at listed
  | string => exact ⟨_, rfl⟩

/-- The meaning that a token gets is that of its text. -/
theorem Spells.means_literal {kind : TokenKind} {text : List Char} (h : kind.Spells text) :
    kind.Means text (Piece.literal kind text) := by
  cases kind with
  | number => exact congrArg Json.int (decimalValue_eq text).symm
  | string =>
    obtain ⟨inner, rfl⟩ := h.exists_inner
    exact ⟨inner, rfl, by simp [Piece.literal]⟩
  | _ => rfl

theorem Means.unique {kind : TokenKind} {text : List Char} {a b : Json} (ha : kind.Means text a)
    (hb : kind.Means text b) : a = b := by
  cases kind with
  | string =>
    obtain ⟨inner, rfl, rfl⟩ := ha
    obtain ⟨inner', heq, rfl⟩ := hb
    rw [List.append_cancel_right (List.cons.inj heq).2]
  | _ => exact Eq.trans ha (Eq.symm hb)

end TokenKind

namespace Piece

/-- Each piece of a division stands for the token or the error that it is turned into. -/
theorem IsDivision.reads {source : List Char} {ps : List Piece} (h : IsDivision source ps)
    (before : List Char) :
    Reads before ps
      ((placed before ps).filterMap (fun x => token? (1 + x.1.count '\n', x.2)) ++
        [.endOfInput (1 + (before ++ source).count '\n' : Nat)])
      ((placed before ps).filterMap fun x => report? (1 + x.1.count '\n', x.2)) := by
  induction h generalizing before with
  | nil =>
    rw [List.append_nil]
    exact .nil
  | cons fits others ih =>
    rw [← List.append_assoc]
    cases fits with
    | token spelled => exact .token spelled.means_literal (ih _)
    | blank => exact .blank (ih _)
    | comment => exact .comment (ih _)
    | stray => exact .stray (ih _)
    | badNumber => exact .badNumber (ih _)
    | openString => exact .openString (ih _)

theorem Reads.unique {before : List Char} {ps : List Piece} {ts us : List Token}
    {rs qs : List Report} (h : Reads before ps ts rs) (h' : Reads before ps us qs) :
    ts = us ∧ rs = qs := by
  induction h generalizing us qs with
  | nil =>
    cases h'
    exact ⟨rfl, rfl⟩
  | token means others ih =>
    obtain _ | ⟨means', others'⟩ := h'
    obtain ⟨rfl, rfl⟩ := ih others'
    exact ⟨by rw [means.unique means'], rfl⟩
  | blank _ ih | comment _ ih =>
    cases h'
    next others' => exact ih others'
  | stray _ ih | badNumber _ ih | openString _ ih =>
    cases h'
    next others' =>
      obtain ⟨rfl, rfl⟩ := ih others'
      exact ⟨rfl, rfl⟩

end Piece

/-- Every character of a text belongs to exactly one piece, and what the pieces are is decided by
the text alone. The tokens and errors of the text are those that its pieces stand for, and no
others. -/
theorem tokenize_division (source : String) : ∃ pieces : List Piece,
    (∀ others, Piece.IsDivision source.toList others ↔ others = pieces) ∧
    pieces.flatMap Piece.text = source.toList ∧ (∀ p ∈ pieces, p.text ≠ []) ∧
    (∀ text, Piece.token .eof text ∉ pieces) ∧
    ∀ tokens reports,
      Piece.Reads [] pieces tokens reports ↔ tokenize source = ⟨tokens, reports⟩ := by
  have hreads : Piece.Reads [] (Piece.ofSource source.toList) (tokenize source).tokens
      (tokenize source).reports := by
    have h := (Piece.isDivision_iff.2 (Eq.refl (Piece.ofSource source.toList))).reads []
    rwa [← Piece.filterMap_numbered Piece.token?, ← Piece.filterMap_numbered Piece.report?] at h
  refine ⟨Piece.ofSource source.toList, fun others => Piece.isDivision_iff,
    Piece.texts_ofSource _, ?_, ?_, fun tokens reports => ⟨fun h => ?_, fun h => ?_⟩⟩
  · exact Piece.forall_mem_ofSource Piece.text_ne_nil _
  · intro text hm
    exact (Piece.isSound_of_mem hm).1 rfl
  · obtain ⟨rfl, rfl⟩ := hreads.unique h
    rfl
  · rwa [h] at hreads

/-- A number before the second spelling of the caret, a character that starts no token, a comment up
to the end of its line, and a quote that is never closed. -/
example : Piece.IsDivision "1_**@//=\n\x22".toList [.token .number ['1', '_'],
    .token .caret ['*', '*'], .stray '@', .comment ['/', '/', '='], .blank '\n',
    .openString ['\x22']] :=
  Piece.isDivision_iff.2 (by decide +kernel)

end LetLang
