import LetLang.CommandLine.Respond
import LetLang.Proofs.Json.RoundTrip
import LetLang.Proofs.Text.Quoted
import Mathlib.Data.List.Basic

namespace LetLang

namespace Text

theorem isPrintable_of_mem_padRight {width : Nat} {s : String}
    (h : ∀ c ∈ s.toList, isPrintable c = true) :
    ∀ c ∈ (padRight width s).toList, isPrintable c = true := by
  intro c hc
  rw [padRight, String.toList_ofList, List.mem_append] at hc
  rcases hc with hc | hc
  · exact h c hc
  · rw [List.eq_of_mem_replicate hc]
    decide

theorem isPrintable_of_mem_toString (n : Int) :
    ∀ c ∈ (toString n).toList, isPrintable c = true := by
  have hshown : ∀ n < 58, 48 ≤ n → inRuns n hiddenRanges = false := by decide
  have hdigit : ∀ c ∈ Nat.toDigits 10 n.natAbs, isPrintable c = true := by
    intro c hc
    have hd := Nat.isDigit_of_mem_toDigits (by decide) (by decide) hc
    obtain ⟨hl, hr⟩ := Char.isDigit_iff_toNat.1 hd
    rw [isPrintable, hshown c.toNat (Nat.lt_succ_of_le hr) hl]
    rfl
  rw [Json.toList_toString]
  split
  · rw [List.forall_mem_cons]
    exact ⟨by decide, hdigit⟩
  · exact hdigit

theorem isPrintable_of_mem_quoted (s : String) : ∀ c ∈ (quoted s).toList, isPrintable c = true := by
  rw [quoted, String.toList_ofList]
  exact isPrintable_of_mem_quote s.toList

end Text

theorem TokenKind.isPrintable_of_mem_name (kind : TokenKind) :
    ∀ c ∈ kind.name.toList, Text.isPrintable c = true := by
  apply List.all_eq_true.1
  cases kind <;> decide

theorem TokenKind.ne_blank_of_mem_name (kind : TokenKind) :
    ∀ c ∈ kind.name.toList, (c != ' ') = true := by
  apply List.all_eq_true.1
  cases kind <;> decide

theorem TokenKind.name_injective : Function.Injective TokenKind.name := by
  intro kind kind' h
  have hname := congrArg TokenKind.ofName? h
  rw [TokenKind.ofName?_name, TokenKind.ofName?_name] at hname
  exact Option.some.inj hname

namespace Token

/-- The token of a text on a line. -/
def spelled (kind : TokenKind) (text : List Char) (line : Nat) : Token :=
  ⟨kind, .str (String.ofList text), Piece.literal kind text, line⟩

/-- The lexer gives no other tokens. -/
theorem exists_spelled {source : String} {t : Token} (h : t ∈ (tokenize source).tokens) :
    ∃ kind text line, t = spelled kind text line := by
  rw [tokenize, List.mem_append, List.mem_filterMap, List.mem_singleton] at h
  rcases h with ⟨⟨line, p⟩, -, hp⟩ | rfl
  · cases p with
    | token kind text =>
      cases hp
      exact ⟨kind, text, line, rfl⟩
    | blank c | comment text | stray c | badNumber text | openString text => cases hp
  · exact ⟨.eof, [], Piece.endLine source.toList, rfl⟩

/-- What stands for a literal. -/
def literalColumn (literal : Json) : String := if literal = .null then "" else literal.inspect

/-- What a line has between its lexeme and the line number. -/
def afterLexeme (kind : TokenKind) (text : List Char) : List Char :=
  List.replicate (15 - (Text.quote text).length) ' ' ++ ' ' ::
    ((Text.padRight 15 (literalColumn (Piece.literal kind text))).toList ++ " line: ".toList)

/-- The name of the kind ends before the first blank. -/
theorem toList_listing (kind : TokenKind) (text : List Char) (line : Nat) :
    (spelled kind text line).listing.toList =
      kind.name.toList ++ ' ' :: (List.replicate (15 - kind.name.length) ' ' ++
        (Text.quote text ++ (afterLexeme kind text ++ Nat.toDigits 10 line))) := by
  have hline : (toString (line : Int)).toList = Nat.toDigits 10 line := by
    rw [Json.toList_toString, if_neg (Int.not_lt.2 (Int.natCast_nonneg line)), Int.natAbs_natCast]
  have hlexeme : (Json.str (String.ofList text)).inspect = String.ofList (Text.quote text) := by
    rw [Json.inspect, Text.quoted, String.toList_ofList]
  have hblank : (" " : String).toList = [' '] := rfl
  have hshift (n : Nat) (rest : List Char) :
      List.replicate n ' ' ++ ' ' :: rest = ' ' :: (List.replicate n ' ' ++ rest) := by
    rw [← List.cons_append, ← List.replicate_succ, List.replicate_succ', List.append_assoc]
    rfl
  have hl : (spelled kind text line).listing = Text.padRight 15 kind.name ++ " " ++
      Text.padRight 15 (String.ofList (Text.quote text)) ++ " " ++
      Text.padRight 15 (literalColumn (Piece.literal kind text)) ++ " line: " ++
      toString (line : Int) := by
    rw [← hlexeme]
    rfl
  rw [hl, ← hshift]
  simp only [String.toList_append, hline, hblank, Text.padRight, String.toList_ofList,
    String.length_ofList, afterLexeme, List.append_assoc, List.cons_append, List.nil_append]

theorem isPrintable_of_mem_literalColumn (kind : TokenKind) (text : List Char) :
    ∀ c ∈ (literalColumn (Piece.literal kind text)).toList, Text.isPrintable c = true := by
  have hempty : ∀ c ∈ (literalColumn .null).toList, Text.isPrintable c = true := by
    intro c hc
    cases hc
  cases kind with
  | number => exact Text.isPrintable_of_mem_toString _
  | string | identifier => exact Text.isPrintable_of_mem_quoted _
  | _ => exact hempty

theorem isPrintable_of_mem_listing (kind : TokenKind) (text : List Char) (line : Nat) :
    ∀ c ∈ (spelled kind text line).listing.toList, Text.isPrintable c = true := by
  have hblank : ∀ c ∈ (" " : String).toList, Text.isPrintable c = true :=
    List.all_eq_true.1 (by decide)
  have hword : ∀ c ∈ (" line: " : String).toList, Text.isPrintable c = true :=
    List.all_eq_true.1 (by decide)
  unfold listing
  simp only [String.toList_append, List.forall_mem_append]
  exact ⟨⟨⟨⟨⟨⟨Text.isPrintable_of_mem_padRight kind.isPrintable_of_mem_name, hblank⟩,
    Text.isPrintable_of_mem_padRight (Text.isPrintable_of_mem_quoted _)⟩, hblank⟩,
    Text.isPrintable_of_mem_padRight (isPrintable_of_mem_literalColumn kind text)⟩, hword⟩,
    Text.isPrintable_of_mem_toString _⟩

theorem takeWhile_listing (kind : TokenKind) (rest : List Char) :
    (kind.name.toList ++ ' ' :: rest).takeWhile (· != ' ') = kind.name.toList := by
  rw [List.takeWhile_append_of_pos kind.ne_blank_of_mem_name]
  exact List.append_nil _

/-- A line is read from left to right: the kind, the quoted lexeme, and by both of them all that
stands before the line number. -/
theorem listing_inj {kind kind' : TokenKind} {text text' : List Char} {line line' : Nat}
    (h : (spelled kind text line).listing = (spelled kind' text' line').listing) :
    spelled kind text line = spelled kind' text' line' := by
  have hl := congrArg String.toList h
  rw [toList_listing, toList_listing] at hl
  have hname := congrArg (List.takeWhile (· != ' ')) hl
  rw [takeWhile_listing, takeWhile_listing] at hname
  obtain rfl : kind = kind' := TokenKind.name_injective (String.toList_inj.1 hname)
  have hquoted := List.append_cancel_left (List.cons.inj (List.append_cancel_left hl)).2
  obtain ⟨rfl, hrest⟩ := Text.quote_append_inj hquoted
  have hdigits := List.append_cancel_left hrest
  have hline : line = line' := calc
    line = Number.ofDigits (Nat.toDigits 10 line) := (Json.ofDigits_toDigits line).symm
    _ = Number.ofDigits (Nat.toDigits 10 line') := by rw [hdigits]
    _ = line' := Json.ofDigits_toDigits line'
  rw [hline]

theorem eq_of_listing_eq {source source' : String} {t t' : Token}
    (ht : t ∈ (tokenize source).tokens) (ht' : t' ∈ (tokenize source').tokens)
    (h : t.listing = t'.listing) : t = t' := by
  obtain ⟨kind, text, line, rfl⟩ := exists_spelled ht
  obtain ⟨kind', text', line', rfl⟩ := exists_spelled ht'
  exact listing_inj h

theorem isLineBreak_of_mem_listing {source : String} {t : Token}
    (ht : t ∈ (tokenize source).tokens) :
    ∀ c ∈ t.listing.toList, Text.isLineBreak c = false := by
  obtain ⟨kind, text, line, rfl⟩ := exists_spelled ht
  intro c hc
  exact Text.isLineBreak_of_isPrintable (isPrintable_of_mem_listing kind text line c hc)

/-- Lists of tokens with the same lines are the same if that holds of each token. -/
theorem eq_of_map_listing_eq {ts ts' : List Token}
    (h : ∀ t ∈ ts, ∀ t' ∈ ts', t.listing = t'.listing → t = t')
    (hl : ts.map (·.listing) = ts'.map (·.listing)) : ts = ts' := by
  induction ts generalizing ts' with
  | nil => exact (List.map_eq_nil_iff.1 hl.symm).symm
  | cons t ts ih =>
    cases ts' with
    | nil => cases hl
    | cons t' ts' =>
      obtain ⟨hfirst, hrest⟩ := List.cons.inj hl
      have ht : t = t' := h t List.mem_cons_self t' List.mem_cons_self hfirst
      have hts : ts = ts' := by
        apply ih _ hrest
        intro u hu u' hu'
        exact h u (List.mem_cons_of_mem _ hu) u' (List.mem_cons_of_mem _ hu')
      rw [ht, hts]

end Token

theorem Console.splitLines_text {lines : List String}
    (h : ∀ line ∈ lines, ∀ c ∈ line.toList, Text.isLineBreak c = false) :
    Text.splitLines (Console.text lines).toList = lines.map String.toList := by
  induction lines with
  | nil => rfl
  | cons line lines ih =>
    rw [List.forall_mem_cons] at h
    have hfirst : (Console.text (line :: lines)).toList =
        line.toList ++ '\n' :: (Console.text lines).toList := by
      rw [Console.text, List.map_cons, String.join_cons, String.toList_append, String.toList_append,
        List.append_assoc]
      rfl
    rw [hfirst, Text.splitLines_append h.1, ih h.2, List.map_cons]

theorem CommandLine.splitLines_listTokens (source : String) :
    Text.splitLines (CommandLine.listTokens source).stdout.toList =
      ((tokenize source).tokens.map (·.listing)).map String.toList := by
  apply Console.splitLines_text
  intro line hline
  obtain ⟨t, ht, rfl⟩ := List.mem_map.1 hline
  exact Token.isLineBreak_of_mem_listing ht

/-- The token listing has one line for each token, and no line stands for two tokens. So what is
listed says which tokens there are. -/
theorem CommandLine.tokens_of_listTokens (source source' : String) :
    let tokens := (tokenize source).tokens
    let tokens' := (tokenize source').tokens
    (∀ t ∈ tokens, ∀ c ∈ t.listing.toList, Text.isLineBreak c = false) ∧
    Text.splitLines (listTokens source).stdout.toList =
      (tokens.map (·.listing)).map String.toList ∧
    (∀ t ∈ tokens, ∀ t' ∈ tokens', t.listing = t'.listing → t = t') ∧
    ((listTokens source).stdout = (listTokens source').stdout → tokens = tokens') := by
  intro tokens tokens'
  refine ⟨fun t => Token.isLineBreak_of_mem_listing, splitLines_listTokens source,
    fun t ht t' ht' => Token.eq_of_listing_eq ht ht', ?_⟩
  intro h
  have hlines := congrArg (fun out : String => Text.splitLines out.toList) h
  rw [splitLines_listTokens, splitLines_listTokens] at hlines
  apply Token.eq_of_map_listing_eq fun t ht t' ht' => Token.eq_of_listing_eq ht ht'
  exact List.map_injective_iff.2 (fun _ _ => String.toList_inj.1) hlines

/-- The string has both quotes and a line feed in it, and ends like a line of the listing. -/
theorem CommandLine.tokens_of_listTokens_string :
    let source := "\"it's\n line: 2\""
    let lines := ["STRING          '\"it\\'s\\n line: 2\"' \"it's\\n line: 2\" line: 1",
      "EOF             ''                              line: 2"]
    (tokenize source).tokens.map (·.listing) = lines ∧
      Text.splitLines (listTokens source).stdout.toList = lines.map String.toList := by
  intro source lines
  have hlines : (tokenize source).tokens.map (·.listing) = lines := by decide +kernel
  obtain ⟨-, hsplit, -⟩ := tokens_of_listTokens source source
  rw [hlines] at hsplit
  exact ⟨hlines, hsplit⟩

end LetLang
