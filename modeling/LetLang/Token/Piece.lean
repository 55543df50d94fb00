import LetLang.Diagnostic
import LetLang.Number.Range

namespace LetLang

/-- A piece of a source text. Nothing is dropped: the texts of the pieces, one after another, are
the source again. -/
inductive Piece where
  | token (kind : TokenKind) (text : List Char)
  | blank (c : Char)
  | comment (text : List Char)
  /-- A character that starts no token. -/
  | stray (c : Char)
  /-- A run of digits and underscores that is no number. -/
  | badNumber (text : List Char)
  /-- A quote that is never closed, with the rest of the source. -/
  | openString (text : List Char)
deriving DecidableEq

namespace Piece

def text : Piece → List Char
  | .token _ text | .comment text | .badNumber text | .openString text => text
  | .blank c | .stray c => [c]

def isBlank (c : Char) : Bool := c == ' ' || c == '\t' || c == '\r' || c == '\n'

/-- An underscore is a digit too, so a word that starts with one is a number. -/
def isDigit (c : Char) : Bool := ('0' ≤ c && c ≤ '9') || c == '_'

def isLetter (c : Char) : Bool := ('a' ≤ c && c ≤ 'z') || ('A' ≤ c && c ≤ 'Z')

def isWordChar (c : Char) : Bool := isLetter c || isDigit c

def withoutUnderscores (text : List Char) : List Char := text.filter (· != '_')

/-- A number has between one digit and as many as the language allows. -/
def isNumber (text : List Char) : Bool :=
  let digits := withoutUnderscores text
  !digits.isEmpty && digits.length ≤ Number.maxDigits

def numberValue (text : List Char) : Int := Number.ofDigits (withoutUnderscores text)

/-- Tokens of one character that is the start of no other token. -/
def single? : Char → Option TokenKind
  | '(' => some .leftParen
  | ')' => some .rightParen
  | ',' => some .comma
  | ':' => some .colon
  | ';' => some .semicolon
  | '+' => some .plus
  | '-' => some .minus
  | '^' => some .caret
  | '?' => some .questionMark
  | _ => none

structure Pair where
  second : Char
  both : TokenKind
  alone : TokenKind

/-- Characters that make another token together with a second one. Two asterisks are another
spelling of the caret. -/
def pair? : Char → Option Pair
  | '=' => some ⟨'=', .equalEqual, .equal⟩
  | '!' => some ⟨'=', .notEqual, .bang⟩
  | '<' => some ⟨'=', .lessEqual, .less⟩
  | '>' => some ⟨'=', .greaterEqual, .greater⟩
  | '.' => some ⟨'.', .doubleDot, .dot⟩
  | '*' => some ⟨'*', .caret, .asterisk⟩
  | _ => none

def cutPair (c : Char) (pair : Pair) (cs : List Char) : Piece × List Char :=
  match cs with
  | d :: rest =>
    if d = pair.second then (.token pair.both [c, d], rest) else (.token pair.alone [c], cs)
  | [] => (.token pair.alone [c], [])

/-- After a slash: a second one opens a comment that ends before the next line feed. -/
def cutSlash (cs : List Char) : Piece × List Char :=
  match cs with
  | '/' :: rest =>
    (.comment ('/' :: '/' :: rest.takeWhile (· != '\n')), rest.dropWhile (· != '\n'))
  | _ => (.token .slash ['/'], cs)

/-- After a quote: the string ends at the next one. -/
def cutString (cs : List Char) : Piece × List Char :=
  let inner := cs.takeWhile (· != '\x22')
  match cs.dropWhile (· != '\x22') with
  | close :: rest => (.token .string ('\x22' :: (inner ++ [close])), rest)
  | [] => (.openString ('\x22' :: inner), [])

def cutNumber (c : Char) (cs : List Char) : Piece × List Char :=
  let text := c :: cs.takeWhile isDigit
  (if isNumber text then .token .number text else .badNumber text, cs.dropWhile isDigit)

def cutWord (c : Char) (cs : List Char) : Piece × List Char :=
  let text := c :: cs.takeWhile isWordChar
  (.token (.ofWord (String.ofList text)) text, cs.dropWhile isWordChar)

/-- The piece that starts with `c`, and what is left. -/
def cut (c : Char) (cs : List Char) : Piece × List Char :=
  match single? c, pair? c with
  | some kind, _ => (.token kind [c], cs)
  | none, some pair => cutPair c pair cs
  | none, none =>
    if c = '/' then cutSlash cs
    else if c = '\x22' then cutString cs
    else if isBlank c then (.blank c, cs)
    else if isDigit c then cutNumber c cs
    else if isLetter c then cutWord c cs
    else (.stray c, cs)

theorem text_cutPair (c : Char) (pair : Pair) (cs : List Char) :
    (cutPair c pair cs).1.text ++ (cutPair c pair cs).2 = c :: cs := by
  unfold cutPair
  split
  · split <;> rfl
  · rfl

theorem text_cutSlash (cs : List Char) :
    (cutSlash cs).1.text ++ (cutSlash cs).2 = '/' :: cs := by
  unfold cutSlash
  split
  · simp [text, List.takeWhile_append_dropWhile]
  · rfl

theorem text_cutString (cs : List Char) :
    (cutString cs).1.text ++ (cutString cs).2 = '\x22' :: cs := by
  have h := List.takeWhile_append_dropWhile (p := (· != '\x22')) (l := cs)
  unfold cutString
  split
  · next close rest hr =>
    rw [hr] at h
    simp [text, h]
  · next hr =>
    rw [hr, List.append_nil] at h
    simp [text, h]

theorem text_cutNumber (c : Char) (cs : List Char) :
    (cutNumber c cs).1.text ++ (cutNumber c cs).2 = c :: cs := by
  unfold cutNumber
  dsimp only
  split <;> simp [text, List.takeWhile_append_dropWhile]

theorem text_cutWord (c : Char) (cs : List Char) :
    (cutWord c cs).1.text ++ (cutWord c cs).2 = c :: cs := by
  simp [cutWord, text, List.takeWhile_append_dropWhile]

/-- Nothing is lost by a cut. -/
theorem text_cut (c : Char) (cs : List Char) : (cut c cs).1.text ++ (cut c cs).2 = c :: cs := by
  unfold cut
  split
  · rfl
  · exact text_cutPair c _ cs
  · split
    · next h => rw [h]; exact text_cutSlash cs
    split
    · next h => rw [h]; exact text_cutString cs
    split
    · rfl
    split
    · exact text_cutNumber c cs
    split
    · exact text_cutWord c cs
    · rfl

theorem text_ne_nil (c : Char) (cs : List Char) : (cut c cs).1.text ≠ [] := by
  unfold cut cutPair cutSlash cutString cutNumber cutWord
  dsimp only
  repeat' split
  all_goals simp [text]

/-- A cut leaves less than there was. -/
theorem length_cut (c : Char) (cs : List Char) : (cut c cs).2.length < (c :: cs).length := by
  have h := congrArg List.length (text_cut c cs)
  have hp := List.length_pos_iff.2 (text_ne_nil c cs)
  rw [List.length_append] at h
  omega

/-- The pieces of a text. The first list bounds their number. -/
def cutAll : List Char → List Char → List Piece
  | _ :: bound, c :: cs => (cut c cs).1 :: cutAll bound (cut c cs).2
  | _, _ => []

theorem texts_cutAll (bound cs : List Char) (h : cs.length ≤ bound.length) :
    (cutAll bound cs).flatMap text = cs := by
  induction bound generalizing cs with
  | nil =>
    have hc : cs = [] := by simpa using h
    subst hc
    rfl
  | cons b bound ih =>
    cases cs with
    | nil => rfl
    | cons c cs =>
      have hl := length_cut c cs
      simp only [List.length_cons] at h hl
      rw [cutAll, List.flatMap_cons, ih _ (by omega), text_cut]

def ofSource (source : List Char) : List Piece := cutAll source source

/-- The pieces of a source are all of it. -/
theorem texts_ofSource (source : List Char) : (ofSource source).flatMap text = source :=
  texts_cutAll source source (Nat.le_refl _)

end Piece

end LetLang
