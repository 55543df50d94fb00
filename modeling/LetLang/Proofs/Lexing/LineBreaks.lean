import LetLang.Proofs.Lexing.Tokens
import LetLang.Proofs.Text.Span

namespace LetLang

def Token.moveDown (n : Nat) (t : Token) : Token := { t with line := t.line + n }

namespace Piece

/-- Does the piece end where it would end in front of more text? -/
def IsClosed (p : Piece) : Prop := ∀ text, p ≠ .openString text

theorem span_lineFeed {p : Char → Bool} (h : p '\n' = false) (cs ds : List Char) :
    (cs ++ '\n' :: ds).takeWhile p = cs.takeWhile p ∧
      (cs ++ '\n' :: ds).dropWhile p = cs.dropWhile p ++ '\n' :: ds :=
  Text.span_append (.inr (by simpa using h))

section
variable (c : Char) (cs ds : List Char)

theorem cutPair_lineFeed {pair : Pair} (h : pair.second ≠ '\n') :
    cutPair c pair (cs ++ '\n' :: ds) = ((cutPair c pair cs).1, (cutPair c pair cs).2 ++ '\n' :: ds) := by
  cases cs with
  | nil => simp [cutPair, h.symm]
  | cons d cs =>
    simp only [cutPair, List.cons_append]
    split <;> rfl

theorem cutSlash_lineFeed :
    cutSlash (cs ++ '\n' :: ds) = ((cutSlash cs).1, (cutSlash cs).2 ++ '\n' :: ds) := by
  cases cs with
  | nil => rfl
  | cons d cs =>
    by_cases hd : d = '/'
    · obtain ⟨ht, hr⟩ := @span_lineFeed (· != '\n') rfl cs ds
      subst hd
      rw [List.cons_append, cutSlash, cutSlash, ht, hr]
    · simp [cutSlash, hd]

theorem cutString_lineFeed (h : (cutString cs).1.IsClosed) :
    cutString (cs ++ '\n' :: ds) = ((cutString cs).1, (cutString cs).2 ++ '\n' :: ds) := by
  unfold cutString at h ⊢
  dsimp only at h ⊢
  cases hd : cs.dropWhile (· != '\x22') with
  | nil =>
    rw [hd] at h
    exact absurd rfl (h _)
  | cons close rest =>
    have hne : cs.dropWhile (· != '\x22') ≠ [] := by rw [hd]; nofun
    obtain ⟨ht, hr⟩ := @Text.span_append _ cs ('\n' :: ds) (.inl hne)
    rw [ht, hr, hd]
    rfl

theorem cut_lineFeed (h : (cut c cs).1.IsClosed) :
    cut c (cs ++ '\n' :: ds) = ((cut c cs).1, (cut c cs).2 ++ '\n' :: ds) := by
  unfold cut at h ⊢
  split
  · rfl
  · next pair _ hp =>
    refine cutPair_lineFeed c cs ds ?_
    unfold pair? at hp
    split at hp <;> cases hp <;> simp
  · next hs hp =>
    rw [hs, hp] at h
    dsimp only at h
    split
    · exact cutSlash_lineFeed cs ds
    split
    · next h' hq =>
      rw [if_neg h', if_pos hq] at h
      exact cutString_lineFeed cs ds h
    split
    · rfl
    split
    · obtain ⟨ht, hr⟩ := @span_lineFeed isDigit rfl cs ds
      rw [cutNumber, cutNumber, ht, hr]
    split
    · obtain ⟨ht, hr⟩ := @span_lineFeed isWordChar rfl cs ds
      rw [cutWord, cutWord, ht, hr]
    · rfl

end

/-- A text in front of a line feed is cut on its own. -/
theorem ofSource_lineFeed {cs : List Char} (h : ∀ p ∈ ofSource cs, p.IsClosed) (ds : List Char) :
    ofSource (cs ++ '\n' :: ds) = ofSource cs ++ .blank '\n' :: ofSource ds := by
  obtain ⟨n, hn⟩ : ∃ n, cs.length ≤ n := ⟨_, Nat.le_refl _⟩
  induction n generalizing cs with
  | zero =>
    have hc : cs = [] := List.length_eq_zero_iff.1 (Nat.le_zero.1 hn)
    subst hc
    exact ofSource_cons '\n' ds
  | succ n ih =>
    cases cs with
    | nil => exact ofSource_cons '\n' ds
    | cons c cs =>
      have hl := length_cut c cs
      rw [ofSource_cons, List.forall_mem_cons] at h
      rw [List.cons_append, ofSource_cons, ofSource_cons, cut_lineFeed c cs ds h.1]
      dsimp only
      rw [ih h.2 (by omega), List.cons_append]

/-- Only a quote can stay open, when no other one follows. -/
theorem isClosed_cut_iff (c : Char) (cs : List Char) :
    (cut c cs).1.IsClosed ↔ (c = '\x22' → '\x22' ∈ cs) := by
  by_cases hc : c = '\x22'
  · subst hc
    -- A string is closed by the next quote, wherever that is.
    have hcut : cut '\x22' cs = cutString cs := rfl
    rw [hcut, cutString]
    cases hd : cs.dropWhile (· != '\x22') with
    | nil =>
      rw [List.dropWhile_eq_nil_iff] at hd
      have hn : '\x22' ∉ cs := fun hm => by simpa using hd _ hm
      simp [IsClosed, hn]
    | cons close rest =>
      have hm : '\x22' ∈ cs := by
        refine Decidable.by_contra fun hn => ?_
        have hnil : cs.dropWhile (· != '\x22') = [] :=
          List.dropWhile_eq_nil_iff.2 fun d hd => by simpa using ne_of_mem_of_not_mem hd hn
        rw [hnil] at hd
        cases hd
      simp [IsClosed, hm]
  · refine iff_of_true ?_ (fun h => absurd h hc)
    unfold cut cutPair cutSlash cutNumber cutWord
    dsimp only
    repeat' split
    all_goals simp_all [IsClosed]

theorem isClosed_of_line {cs : List Char} (h : ∀ p ∈ ofSource (cs ++ ['\n']), p.IsClosed) :
    ∀ p ∈ ofSource cs, p.IsClosed := by
  obtain ⟨n, hn⟩ : ∃ n, cs.length ≤ n := ⟨_, Nat.le_refl _⟩
  induction n generalizing cs with
  | zero =>
    have hc : cs = [] := List.length_eq_zero_iff.1 (Nat.le_zero.1 hn)
    subst hc
    exact List.forall_mem_nil _
  | succ n ih =>
    cases cs with
    | nil => exact List.forall_mem_nil _
    | cons c cs =>
      have hl := length_cut c cs
      rw [List.cons_append, ofSource_cons, List.forall_mem_cons] at h
      have hc : (cut c cs).1.IsClosed := by
        rw [isClosed_cut_iff] at h ⊢
        simpa using h.1
      rw [cut_lineFeed c cs [] hc] at h
      rw [ofSource_cons, List.forall_mem_cons]
      exact ⟨hc, ih h.2 (by omega)⟩

/-- A line that leaves no string open and the text after it are cut apart. -/
theorem ofSource_append {cs : List Char} (h : ∀ p ∈ ofSource (cs ++ ['\n']), p.IsClosed)
    (ds : List Char) : ofSource (cs ++ ['\n'] ++ ds) = ofSource (cs ++ ['\n']) ++ ofSource ds := by
  have hc := isClosed_of_line h
  have hn : ofSource (cs ++ ['\n']) = ofSource cs ++ [.blank '\n'] := ofSource_lineFeed hc []
  rw [List.append_assoc, List.singleton_append, ofSource_lineFeed hc, hn, List.append_assoc]
  rfl

theorem numbered_append (line : Nat) (ps qs : List Piece) :
    numbered line (ps ++ qs) =
      numbered line ps ++ numbered (line + lineFeeds (ps.flatMap text)) qs := by
  induction ps generalizing line with
  | nil => rfl
  | cons p ps ih =>
    have hf : lineFeeds ((p :: ps).flatMap text) = lineFeeds p.text + lineFeeds (ps.flatMap text) :=
      List.count_append
    rw [List.cons_append, numbered, numbered, ih, hf, List.cons_append, Nat.add_assoc]

/-- Whatever is read of pieces and moves with their lines is moved as a whole. -/
theorem filterMap_numbered_add {α : Type} {f : Nat × Piece → Option α} {n : Nat} {move : α → α}
    (hmove : ∀ line p, f (line + n, p) = (f (line, p)).map move) (line : Nat) (ps : List Piece) :
    (numbered (line + n) ps).filterMap f = ((numbered line ps).filterMap f).map move := by
  induction ps generalizing line with
  | nil => rfl
  | cons p ps ih =>
    rw [numbered, numbered, Nat.add_right_comm, List.filterMap_cons, List.filterMap_cons, hmove, ih]
    cases f (line, p) <;> rfl

theorem unchecked?_add (line n : Nat) (p : Piece) :
    unchecked? (line + n, p) = (unchecked? (line, p)).map (Token.moveDown n) := by
  cases p <;> simp [unchecked?, token?, Token.moveDown]

theorem unchecked_add (line n : Nat) (ps : List Piece) :
    unchecked (line + n) ps = (unchecked line ps).map (Token.moveDown n) :=
  filterMap_numbered_add (fun line p => unchecked?_add line n p) line ps

/-- Pieces that follow others have their tokens further down. -/
theorem unchecked_append (line : Nat) (ps qs : List Piece) :
    unchecked line (ps ++ qs) = unchecked line ps ++
      (unchecked line qs).map (Token.moveDown (lineFeeds (ps.flatMap text))) := by
  rw [← unchecked_add, unchecked, numbered_append, List.filterMap_append]
  rfl

end Piece

end LetLang
