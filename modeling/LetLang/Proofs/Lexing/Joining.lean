import LetLang.Proofs.Lexing.LineBreaks

namespace LetLang

/-- The same report, so many lines further down. -/
def Report.moveDown (n : Nat) (r : Report) : Report := { r with line := r.line + n }

namespace Piece

theorem token?_add (line n : Nat) (p : Piece) :
    token? (line + n, p) = (token? (line, p)).map (Token.moveDown n) := by
  cases p <;> simp [token?, Token.moveDown]

theorem report?_add (line n : Nat) (p : Piece) :
    report? (line + n, p) = (report? (line, p)).map (Report.moveDown n) := by
  cases h : p.error? <;> simp [report?, h, Report.moveDown]

/-- Whatever is read of each piece and its line: first that of the one text, and then that of the
other one, further down. -/
theorem filterMap_join {α : Type} {f : Nat × Piece → Option α} {move : Nat → α → α}
    (hmove : ∀ line n p, f (line + n, p) = (f (line, p)).map (move n))
    (hblank : ∀ line, f (line, .blank '\n') = none) {cs : List Char}
    (closed : ∀ p ∈ ofSource cs, p.IsClosed) (ds : List Char) :
    (numbered 1 (ofSource (cs ++ '\n' :: ds))).filterMap f =
      (numbered 1 (ofSource cs)).filterMap f ++
        ((numbered 1 (ofSource ds)).filterMap f).map (move (1 + cs.count '\n')) := by
  have hfeeds : lineFeeds ((ofSource cs).flatMap text) = cs.count '\n' := by
    rw [texts_ofSource, lineFeeds]
  have hrest : (numbered (1 + (1 + cs.count '\n')) (ofSource ds)).filterMap f =
      ((numbered 1 (ofSource ds)).filterMap f).map (move (1 + cs.count '\n')) :=
    filterMap_numbered_add (fun line p => hmove line _ p) 1 (ofSource ds)
  -- the line feed itself is a blank on the last line of the first text
  have hfeed : lineFeeds (Piece.blank '\n').text = 1 := rfl
  rw [ofSource_lineFeed closed, numbered_append, hfeeds, numbered, hfeed, List.filterMap_append,
    List.filterMap_cons_none (hblank _), Nat.add_assoc, Nat.add_comm (cs.count '\n') 1, hrest]

/-- The error of a string that is never closed is told by its message. -/
theorem isClosed_of_reports {source : String}
    (h : ∀ r ∈ (tokenize source).reports, r.message ≠ "Unterminated string.") :
    ∀ p ∈ ofSource source.toList, p.IsClosed := by
  rintro p hp text rfl
  obtain ⟨line, hl⟩ := exists_mem_numbered 1 hp
  apply h ⟨line, Report.placeAtEnd, LexicalError.unterminatedString.message⟩
  · exact List.mem_filterMap.2 ⟨_, hl, rfl⟩
  · rfl

end Piece

open Piece in
/-- A text that leaves no string open, a line feed and any other text are read as the two texts
are on their own: the tokens of the first one but for its end, then those of the second one, and so
with the errors. All that is of the second text stands so many lines further down as the first one
has lines. -/
theorem tokenize_join {first : String}
    (closed : ∀ r ∈ (tokenize first).reports, r.message ≠ "Unterminated string.")
    (second : String) :
    (tokenize (first ++ "\n" ++ second)).tokens = (tokenize first).tokens.dropLast ++
        (tokenize second).tokens.map (Token.moveDown (1 + first.toList.count '\n')) ∧
      (tokenize (first ++ "\n" ++ second)).reports = (tokenize first).reports ++
        (tokenize second).reports.map (Report.moveDown (1 + first.toList.count '\n')) := by
  have hclosed := isClosed_of_reports closed
  have htext : (first ++ "\n" ++ second).toList = first.toList ++ '\n' :: second.toList := by simp
  have htokens := filterMap_join token?_add (fun _ => rfl) hclosed second.toList
  have hreports := filterMap_join report?_add (fun _ => rfl) hclosed second.toList
  have hend : Token.endOfInput (endLine (first.toList ++ '\n' :: second.toList)) =
      (Token.endOfInput (endLine second.toList)).moveDown (1 + first.toList.count '\n') := by
    simp only [Token.endOfInput, Token.moveDown, endLine, lineFeeds, List.count_append,
      List.count_cons_self, Token.mk.injEq, true_and]
    omega
  unfold tokenize
  rw [htext]
  dsimp only
  rw [htokens, hreports, hend, List.dropLast_concat, List.map_append, List.append_assoc]
  exact ⟨rfl, rfl⟩

/-- The first text ends in an operator that would go on with what follows, and has an error. -/
theorem tokenize_join_equals :
    (∀ r ∈ (tokenize "#\n<").reports, r.message ≠ "Unterminated string.") ∧
    (tokenize "#\n<\n= \x22").tokens =
      [⟨.less, .str "<", .null, 2⟩, ⟨.equal, .str "=", .null, 3⟩, .endOfInput 3] ∧
    (tokenize "#\n<\n= \x22").reports =
      [⟨1, "at '#'", "Unexpected character."⟩, ⟨3, "at end", "Unterminated string."⟩] := by
  have closed : ∀ r ∈ (tokenize "#\n<").reports, r.message ≠ "Unterminated string." := by
    decide +kernel
  obtain ⟨htokens, hreports⟩ := tokenize_join closed "= \x22"
  exact ⟨closed, htokens.trans (by decide +kernel), hreports.trans (by decide +kernel)⟩

end LetLang
