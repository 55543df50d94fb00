import LetLang.Strict.Terminal
import LetLang.Token.Lexer

namespace LetLang

/-- What the terminals make of a piece: a token, nothing, or no match at all. -/
def Piece.terminal? : Piece → Option (Option TokenKind)
  | .token .dot _ | .token .colon _ | .token .questionMark _ => none
  | .token kind _ => some (some kind)
  | .badNumber _ => some (some .number)
  | .blank _ | .comment _ => some none
  | .stray _ | .openString _ => none

theorem TokenKind.ofWord_induction {P : TokenKind → Prop} (hn : P .identifier)
    (hk : ∀ w ∈ keywords, P w.2) (word : String) : P (ofWord word) := by
  unfold ofWord
  generalize keywords = words at hk
  induction words with
  | nil => exact hn
  | cons w words ih =>
    rw [List.forall_mem_cons] at hk
    rw [List.lookup_cons]
    cases word == w.1 with
    | true => exact hk.1
    | false => exact ih hk.2

theorem Piece.terminal?_word (word : String) (text : List Char) :
    (Piece.token (.ofWord word) text).terminal? = some (some (.ofWord word)) :=
  TokenKind.ofWord_induction (P := fun kind => (Piece.token kind text).terminal? = some (some kind))
    rfl (by simp [TokenKind.keywords, terminal?]) word

namespace Strict

/-- May a text that starts with this character match? -/
def Shape.opens (c : Char) : Shape → Bool
  | .spelled text => text.head? == some c
  | .run first _ => first c
  | .comment => c == '/'
  | .string => c == '\x22'

theorem matchLength_of_not_opens {c : Char} {s : Shape} (h : s.opens c = false)
    (hs : s ≠ .spelled []) (cs : List Char) : s.matchLength (c :: cs) = none := by
  cases s with
  | spelled text =>
    cases text with
    | nil => exact absurd rfl hs
    | cons d ds =>
      have hd : (d == c) = false := by simpa [Shape.opens] using h
      simp [Shape.matchLength, List.isPrefixOf, hd]
  | run first more =>
    have hc : first c = false := h
    simp [Shape.matchLength, hc]
  | comment =>
    have hc : c ≠ '/' := by simpa [Shape.opens] using h
    simp only [Shape.matchLength]
    split
    · next heq => exact absurd (List.cons.inj heq).1 hc
    · rfl
  | string =>
    have hc : c ≠ '\x22' := by simpa [Shape.opens] using h
    simp only [Shape.matchLength]
    split
    · next heq => exact absurd (List.cons.inj heq).1 hc
    · rfl

theorem longest_cons_none {cs : List Char} {t : Terminal} (h : t.shape.matchLength cs = none)
    (ts : List Terminal) : longest cs (t :: ts) = longest cs ts := by
  rw [longest, h]

theorem longest_singleton (cs : List Char) (t : Terminal) :
    longest cs [t] = (t.shape.matchLength cs).map fun n => (t.kind, n) := by
  rw [longest, longest]
  cases t.shape.matchLength cs <;> rfl

/-- Only terminals that may start with the first character matter. -/
theorem longest_filter (c : Char) (cs : List Char) {ts : List Terminal}
    (hs : ∀ t ∈ ts, t.shape ≠ .spelled []) :
    longest (c :: cs) ts = longest (c :: cs) (ts.filter (·.shape.opens c)) := by
  induction ts with
  | nil => rfl
  | cons t ts ih =>
    rw [List.forall_mem_cons] at hs
    have ih := ih hs.2
    rw [List.filter_cons]
    split
    · rw [longest, longest, ih]
    · next h =>
      rw [longest_cons_none (matchLength_of_not_opens (by simpa using h) hs.1 cs), ih]

theorem ne_empty_of_mem_terminals : ∀ t ∈ terminals, t.shape ≠ .spelled [] := by
  -- an empty text would match before nothing
  have h : ∀ t ∈ terminals, t.shape.matchLength [] = none := by decide
  intro t ht he
  have hn := h t ht
  rw [he] at hn
  exact absurd hn (by decide)

/-- The first characters of the terminals that are spelled out. -/
def spelledStart? (t : Terminal) : Option Char :=
  match t.shape with
  | .spelled text => text.head?
  | _ => none

theorem filter_spelled_eq_nil {ts : List Terminal} {c : Char}
    (hs : ∀ t ∈ ts, ∃ d, spelledStart? t = some d ∧ d ≠ c) :
    ts.filter (·.shape.opens c) = [] := by
  rw [List.filter_eq_nil_iff]
  intro t ht
  obtain ⟨d, hd, hc⟩ := hs t ht
  unfold spelledStart? at hd
  split at hd
  · next text heq => simp [heq, Shape.opens, hd, hc]
  · cases hd

/-- A run of the class of characters is the whole of its match. -/
theorem matchLength_run {first more : Char → Bool} {c : Char} (h : first c = true)
    (cs : List Char) :
    (Shape.run first more).matchLength (c :: cs) = some (1 + (cs.takeWhile more).length) := by
  simp [Shape.matchLength, h]

/-- A prefix with characters of the class only is a prefix of the run. -/
theorem prefix_takeWhile {p : Char → Bool} {text cs : List Char} (h : text <+: cs)
    (ht : ∀ c ∈ text, p c = true) : text <+: cs.takeWhile p := by
  obtain ⟨rest, rfl⟩ := h
  rw [List.takeWhile_append_of_pos ht]
  exact List.prefix_append _ _

/-- Keywords win over names only when they are the whole word. -/
theorem longest_word {words : List (String × TokenKind)} {t : Terminal} {cs word : List Char}
    {kind : TokenKind} (ht : t.kind = some kind) (hm : t.shape.matchLength cs = some word.length)
    (hp : word <+: cs) (hw : ∀ w ∈ words, w.1.toList <+: cs → w.1.toList <+: word) :
    longest cs (words.map (fun (w, k) => spelled w k) ++ [t]) =
      some (some ((words.lookup (String.ofList word)).getD kind), word.length) := by
  induction words with
  | nil => simp [longest, hm, ht]
  | cons first words ih =>
    obtain ⟨w, k⟩ := first
    rw [List.forall_mem_cons] at hw
    have ih := ih hw.2
    rw [List.map_cons, List.cons_append, List.lookup_cons]
    -- a keyword may match only a beginning of the word, and then the name is longer
    by_cases hpre : w.toList <+: cs
    · have hmatch : (spelled w k).shape.matchLength cs = some w.toList.length := by
        simp [spelled, Shape.matchLength, List.isPrefixOf_iff_prefix.2 hpre]
      have hword := hw.1 hpre
      by_cases hl : w.toList.length < word.length
      · have hne : (String.ofList word == w) = false := by
          rw [beq_eq_false_iff_ne]
          rintro rfl
          simp at hl
        rw [longest, hmatch, ih, hne]
        simp [hl]
      · have heq := hword.eq_of_length (Nat.le_antisymm hword.length_le (Nat.le_of_not_lt hl))
        have hk : (String.ofList word == w) = true := by
          rw [beq_iff_eq, ← heq, String.ofList_toList]
        rw [longest, hmatch, ih, hk]
        simp [spelled, heq]
    · have hmatch : (spelled w k).shape.matchLength cs = none := by
        simp only [spelled, Shape.matchLength]
        rw [if_neg]
        rwa [List.isPrefixOf_iff_prefix]
      have hne : (String.ofList word == w) = false := by
        rw [beq_eq_false_iff_ne]
        rintro rfl
        exact hpre (by rwa [String.toList_ofList])
      rw [longest_cons_none hmatch, ih, hne]

theorem isLetter_eq (c : Char) : isLetter c = Piece.isLetter c := Bool.or_comm _ _

theorem isWhite_eq (c : Char) : isWhite c = Piece.isBlank c := by
  simp [isWhite, Piece.isBlank, Bool.or_assoc, Bool.beq_eq_decide_eq]

theorem longest_eq_of_filter {c : Char} {ts : List Terminal}
    (h : terminals.filter (·.shape.opens c) = ts) (cs : List Char) :
    longest (c :: cs) terminals = longest (c :: cs) ts := by
  rw [longest_filter c cs ne_empty_of_mem_terminals, h]

theorem longest_pair {c : Char} {pair : Piece.Pair}
    (h : terminals.filter (·.shape.opens c) =
      [⟨some pair.both, .spelled [c, pair.second]⟩, ⟨some pair.alone, .spelled [c]⟩])
    (cs : List Char) :
    longest (c :: cs) terminals = if cs.head? = some pair.second then some (some pair.both, 2)
      else some (some pair.alone, 1) := by
  rw [longest_eq_of_filter h]
  cases cs with
  | nil => simp [longest, Shape.matchLength]
  | cons d cs =>
    by_cases hd : d = pair.second
    · simp [longest, Shape.matchLength, hd]
    · have hd' : ¬ pair.second = d := fun he => hd he.symm
      simp [longest, Shape.matchLength, hd, hd']

theorem cutPair_eq (c : Char) (pair : Piece.Pair) (cs : List Char) :
    (Piece.cutPair c pair cs).1 = if cs.head? = some pair.second then
      .token pair.both [c, pair.second] else .token pair.alone [c] := by
  unfold Piece.cutPair
  cases cs with
  | nil => rfl
  | cons d cs =>
    by_cases hd : d = pair.second <;> simp [hd]

/-- What the terminals match at a text that is cut to this piece. -/
def Matches (cs : List Char) (p : Piece) : Prop :=
  longest cs terminals = p.terminal?.map fun kind => (kind, p.text.length)

theorem matches_single {c : Char} {kind : TokenKind} (h : Piece.single? c = some kind)
    (cs : List Char) : Matches (c :: cs) (.token kind [c]) := by
  unfold Piece.single? at h
  split at h <;> cases h <;> rfl

theorem filter_pair {c : Char} {pair : Piece.Pair} (h : Piece.pair? c = some pair) (hc : c ≠ '.') :
    terminals.filter (·.shape.opens c) =
      [⟨some pair.both, .spelled [c, pair.second]⟩, ⟨some pair.alone, .spelled [c]⟩] := by
  unfold Piece.pair? at h
  split at h <;> cases h <;> first | rfl | exact absurd rfl hc

theorem matches_dots (cs : List Char) :
    Matches ('.' :: cs) (Piece.cutPair '.' ⟨'.', .doubleDot, .dot⟩ cs).1 := by
  cases cs with
  | nil => rfl
  | cons d cs =>
    by_cases hd : d = '.'
    · subst hd
      rfl
    · have hd' : ¬ '.' = d := fun he => hd he.symm
      have hf : terminals.filter (·.shape.opens '.') = [spelled ".." .doubleDot] := rfl
      rw [Matches, longest_eq_of_filter hf]
      simp [longest, spelled, Shape.matchLength, hd, hd', Piece.terminal?, Piece.cutPair]

theorem matches_pair {c : Char} {pair : Piece.Pair} (h : Piece.pair? c = some pair)
    (cs : List Char) : Matches (c :: cs) (Piece.cutPair c pair cs).1 := by
  by_cases hc : c = '.'
  · subst hc
    cases h
    exact matches_dots cs
  · rw [Matches, longest_pair (filter_pair h hc), cutPair_eq]
    unfold Piece.pair? at h
    split at h <;> cases h <;> first | exact absurd rfl hc | (split <;> rfl)

theorem matches_slash (cs : List Char) : Matches ('/' :: cs) (Piece.cutSlash cs).1 := by
  have hf : terminals.filter (·.shape.opens '/') = [spelled "/" .slash, ⟨none, .comment⟩] := rfl
  rw [Matches, longest_eq_of_filter hf]
  unfold Piece.cutSlash
  split
  · next rest =>
    simp only [longest, spelled, Shape.matchLength, Piece.terminal?, Piece.text]
    simp [Nat.add_comm 2]
  · next h =>
    have hc : Shape.comment.matchLength ('/' :: cs) = none := by
      simp only [Shape.matchLength]
      split
      · next heq => exact absurd (List.cons.inj heq).2 (h _)
      · rfl
    rw [longest, longest, hc]
    rfl

theorem matches_string (cs : List Char) : Matches ('\x22' :: cs) (Piece.cutString cs).1 := by
  have hf : terminals.filter (·.shape.opens '\x22') = [⟨some .string, .string⟩] := rfl
  have hcs := congrArg List.length (List.takeWhile_append_dropWhile (p := (· != '\x22')) (l := cs))
  rw [List.length_append] at hcs
  rw [Matches, longest_eq_of_filter hf, longest_singleton]
  simp only [Shape.matchLength, Piece.cutString]
  cases hd : cs.dropWhile (· != '\x22') with
  | nil =>
    rw [hd, List.length_nil] at hcs
    rw [if_neg (by omega)]
    rfl
  | cons close rest =>
    rw [hd, List.length_cons] at hcs
    rw [if_pos (by omega)]
    simp [Piece.terminal?, Piece.text]

theorem keyword_start : ∀ t ∈ keywordTerminals, ∃ d, spelledStart? t = some d ∧
    Piece.isLetter d = true := by
  have h : ∀ t ∈ keywordTerminals, (spelledStart? t).any Piece.isLetter = true := by decide
  intro t ht
  simpa [Option.any_eq_true] using h t ht

theorem symbol_start : ∀ t ∈ symbolTerminals, ∃ d, spelledStart? t = some d ∧
    Piece.isLetter d = false ∧ Piece.isDigit d = false ∧
      ((Piece.single? d).isSome ∨ (Piece.pair? d).isSome ∨ d = '/') := by
  have h : ∀ t ∈ symbolTerminals, (spelledStart? t).any (fun d => !Piece.isLetter d &&
      (!Piece.isDigit d && ((Piece.single? d).isSome || ((Piece.pair? d).isSome || d == '/'))))
      = true := by decide
  intro t ht
  simpa [Option.any_eq_true] using h t ht

theorem not_isLetter_of_isDigit {c : Char} (h : Piece.isDigit c = true) :
    Piece.isLetter c = false := by
  simp only [Piece.isDigit, Piece.isLetter, Bool.or_eq_true, Bool.and_eq_true, decide_eq_true_eq,
    beq_iff_eq, Bool.or_eq_false_iff, Bool.and_eq_false_iff, decide_eq_false_iff_not,
    Char.le_def, UInt32.le_iff_toNat_le] at h ⊢
  obtain h | rfl := h
  · simp at h ⊢
    omega
  · decide

/-- Characters that no branch of a cut before the classes takes. -/
structure IsPlain (c : Char) : Prop where
  blank : Piece.isBlank c = false
  slash : c ≠ '/'
  quote : c ≠ '\x22'
  single : Piece.single? c = none
  pair : Piece.pair? c = none

section
variable {c : Char}

theorem IsPlain.filter_symbols (h : IsPlain c) : symbolTerminals.filter (·.shape.opens c) = [] := by
  apply filter_spelled_eq_nil
  intro t ht
  obtain ⟨d, hd, -, -, hk⟩ := symbol_start t ht
  refine ⟨d, hd, ?_⟩
  rintro rfl
  simp [h.single, h.pair, h.slash] at hk

theorem filter_keywords (hc : Piece.isLetter c = false) :
    keywordTerminals.filter (·.shape.opens c) = [] := by
  apply filter_spelled_eq_nil
  intro t ht
  obtain ⟨d, hd, hl⟩ := keyword_start t ht
  refine ⟨d, hd, ?_⟩
  rintro rfl
  simp [hc] at hl

theorem IsPlain.filter_classes (h : IsPlain c) : classTerminals.filter (·.shape.opens c) =
    if Piece.isLetter c then [⟨some .identifier, .run isLetter fun c => isLetter c || isNumeral c⟩]
    else if Piece.isDigit c then [⟨some .number, .run isNumeral isNumeral⟩] else [] := by
  have hn : isNumeral c = Piece.isDigit c := rfl
  by_cases hl : Piece.isLetter c = true
  · have hd : Piece.isDigit c = false :=
      Bool.eq_false_iff.2 fun hd => by simp [not_isLetter_of_isDigit hd] at hl
    simp [classTerminals, Shape.opens, isLetter_eq, isWhite_eq, hl, hn, hd, h.blank, h.slash, h.quote]
  · by_cases hd : Piece.isDigit c = true <;>
      simp [classTerminals, Shape.opens, isLetter_eq, isWhite_eq, hl, hn, hd, h.blank, h.slash,
        h.quote]

theorem IsPlain.matches_number (h : IsPlain c) (hc : Piece.isDigit c = true) (cs : List Char) :
    Matches (c :: cs) (Piece.cutNumber c cs).1 := by
  have hl := not_isLetter_of_isDigit hc
  have hm : (Shape.run isNumeral isNumeral).matchLength (c :: cs) =
    some (1 + (cs.takeWhile isNumeral).length) := matchLength_run hc cs
  have hf : terminals.filter (·.shape.opens c) = [⟨some .number, .run isNumeral isNumeral⟩] := by
    simp [terminals, h.filter_symbols, filter_keywords hl, h.filter_classes, hl, hc]
  rw [Matches, longest_eq_of_filter hf, longest_singleton, hm]
  simp only [Piece.cutNumber, Option.map_some]
  split <;> simp [Piece.terminal?, Piece.text, Nat.add_comm 1] <;> rfl

theorem IsPlain.matches_stray (h : IsPlain c) (hl : Piece.isLetter c = false)
    (hd : Piece.isDigit c = false) (cs : List Char) : Matches (c :: cs) (.stray c) := by
  have hf : terminals.filter (·.shape.opens c) = [] := by
    simp [terminals, h.filter_symbols, filter_keywords hl, h.filter_classes, hl, hd]
  rw [Matches, longest_eq_of_filter hf]
  rfl

theorem isWordChar_of_keyword : ∀ w ∈ TokenKind.keywords, ∀ d ∈ w.1.toList,
    Piece.isWordChar d = true := by
  have h : (TokenKind.keywords.all fun w => w.1.toList.all Piece.isWordChar) = true := by decide
  simpa [List.all_eq_true] using h

/-- A word may be a name or a keyword. -/
theorem IsPlain.matches_word (h : IsPlain c) (hc : Piece.isLetter c = true) (cs : List Char) :
    Matches (c :: cs) (Piece.cutWord c cs).1 := by
  let name : Terminal := ⟨some .identifier, .run isLetter fun c => isLetter c || isNumeral c⟩
  have hclass : (fun c => isLetter c || isNumeral c) = Piece.isWordChar := by
    funext d
    rw [isLetter_eq]
    rfl
  have hname : name.shape.opens c = true := (isLetter_eq c).trans hc
  -- Of all the terminals, only those for words can start with a letter.
  have hf : terminals.filter (·.shape.opens c) =
      (keywordTerminals ++ [name]).filter (·.shape.opens c) := by
    simp [terminals, h.filter_symbols, h.filter_classes, hc, hname, name]
  have hne : ∀ t ∈ keywordTerminals ++ [name], t.shape ≠ .spelled [] := by
    intro t ht
    obtain ht | ht := List.mem_append.1 ht
    · exact ne_empty_of_mem_terminals t (List.mem_append_left _ (List.mem_append_left _ ht))
    · rw [List.mem_singleton.1 ht]
      exact Shape.noConfusion
  have hk : keywordTerminals = TokenKind.keywords.map fun (w, k) => spelled w k := rfl
  have hword : c :: cs.takeWhile Piece.isWordChar = (c :: cs).takeWhile Piece.isWordChar := by
    rw [List.takeWhile_cons_of_pos (by simp [Piece.isWordChar, hc])]
  have hm : name.shape.matchLength (c :: cs) = some (c :: cs.takeWhile Piece.isWordChar).length := by
    rw [← hclass, List.length_cons, Nat.add_comm]
    exact matchLength_run hname cs
  rw [Matches, longest_filter c cs ne_empty_of_mem_terminals, hf, ← longest_filter c cs hne, hk,
    longest_word rfl hm (by rw [hword]; exact List.takeWhile_prefix _)]
  · rw [Piece.cutWord, Piece.terminal?_word]
    rfl
  · intro w hw hpre
    rw [hword]
    exact prefix_takeWhile hpre (isWordChar_of_keyword w hw)

end

/-- The longest match is the piece that a text is cut at, unless that is a blank. -/
theorem longest_cut {c : Char} (hb : Piece.isBlank c = false) (cs : List Char) :
    Matches (c :: cs) (Piece.cut c cs).1 := by
  unfold Piece.cut
  split
  · next kind h => exact matches_single h cs
  · next pair _ h => exact matches_pair h cs
  · next h1 h2 =>
    split
    · next h =>
      subst h
      exact matches_slash cs
    · next hs =>
      split
      · next h =>
        subst h
        exact matches_string cs
      · next hq =>
        have hp : IsPlain c := ⟨hb, hs, hq, h1, h2⟩
        rw [if_neg (by simp [hb])]
        split
        · next hd => exact hp.matches_number hd cs
        · next hd =>
          split
          · next hl => exact hp.matches_word hl cs
          · next hl => exact hp.matches_stray (by simpa using hl) (by simpa using hd) cs

/-- Blanks are matched in runs. -/
theorem longest_blank {c : Char} (hb : Piece.isBlank c = true) (cs : List Char) :
    longest (c :: cs) terminals = some (none, 1 + (cs.takeWhile Piece.isBlank).length) := by
  have hclass : isWhite = Piece.isBlank := funext isWhite_eq
  have hm : (Shape.run isWhite isWhite).matchLength (c :: cs) =
    some (1 + (cs.takeWhile isWhite).length) := matchLength_run ((isWhite_eq c).trans hb) cs
  have hf : terminals.filter (·.shape.opens c) = [⟨none, .run isWhite isWhite⟩] := by
    simp only [Piece.isBlank, Bool.or_eq_true, beq_iff_eq] at hb
    obtain ((rfl | rfl) | rfl) | rfl := hb <;> rfl
  rw [longest_eq_of_filter hf, longest_singleton, hm, hclass]
  rfl

end Strict

end LetLang
