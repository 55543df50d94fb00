import LetLang.Json.Reader
import LetLang.Text.Quoted
import Mathlib.Algebra.Group.Nat.Defs
import Mathlib.Data.List.TakeDrop

namespace LetLang.Text

/-- The code points that end a line. -/
def lineBreaks : List Nat := [0x0A, 0x0B, 0x0C, 0x0D, 0x1C, 0x1D, 0x1E, 0x85, 0x2028, 0x2029]

def isLineBreak (c : Char) : Bool := lineBreaks.contains c.toNat

/-- The lines of a text, without their ends. The last line need not have one. -/
def splitLines : List Char → List (List Char)
  | [] => []
  | '\r' :: '\n' :: rest => [] :: splitLines rest
  | c :: rest =>
    if isLineBreak c then [] :: splitLines rest
    else
      match splitLines rest with
      | [] => [[c]]
      | line :: lines => (c :: line) :: lines

theorem isLineBreak_of_isPrintable {c : Char} (h : isPrintable c = true) :
    isLineBreak c = false := by
  have hidden : ∀ n ∈ lineBreaks, inRuns n hiddenRanges = true := by decide +kernel
  rw [Bool.eq_false_iff]
  intro hc
  rw [isPrintable, hidden _ (List.contains_iff_mem.1 hc)] at h
  cases h

theorem splitLines_append {line : List Char} (h : ∀ c ∈ line, isLineBreak c = false)
    (rest : List Char) : splitLines (line ++ '\n' :: rest) = line :: splitLines rest := by
  induction line with
  | nil => rfl
  | cons c line ih =>
    rw [List.forall_mem_cons] at h
    rw [List.cons_append, splitLines]
    · rw [if_neg (by simp [h.1]), ih h.2]
    · rintro _ rfl
      exact absurd h.1 (by decide)

theorem isPrintable_digitChar : ∀ n < 16, isPrintable (Nat.digitChar n) = true := by decide

theorem isPrintable_of_mem_hexDigits {count n : Nat} {c : Char} (h : c ∈ hexDigits count n) :
    isPrintable c = true := by
  induction count generalizing n with
  | zero => cases h
  | succ count ih =>
    rw [hexDigits, List.mem_append, List.mem_singleton] at h
    rcases h with h | rfl
    · exact ih h
    · exact isPrintable_digitChar _ (Nat.mod_lt _ (by decide))

/-- The letters of the numeric escapes, with the digits that follow them. -/
def widths : List (Char × Nat) := [('x', 2), ('u', 4), ('U', 8)]

theorem toNat_lt (c : Char) : c.toNat < 16 ^ 8 := by
  have hv := c.valid
  have hn : c.toNat = c.val.toNat := rfl
  simp only [UInt32.isValidChar, Nat.isValidChar] at hv
  omega

/-- A numeric escape has all digits of its code point. -/
theorem exists_numericEscape (c : Char) : ∃ letter count, (letter, count) ∈ widths ∧
    c.toNat < 16 ^ count ∧
    numericEscape c.toNat = '\\' :: letter :: hexDigits count c.toNat := by
  unfold numericEscape
  split
  · next h => exact ⟨'x', 2, by decide, h, rfl⟩
  split
  · next h => exact ⟨'u', 4, by decide, h, rfl⟩
  · exact ⟨'U', 8, by decide, toNat_lt c, rfl⟩

theorem isPrintable_of_mem_numericEscape (c : Char) :
    ∀ d ∈ numericEscape c.toNat, isPrintable d = true := by
  have hletter : ∀ w ∈ widths, isPrintable w.1 = true := by decide
  obtain ⟨letter, count, hw, -, he⟩ := exists_numericEscape c
  rw [he, List.forall_mem_cons, List.forall_mem_cons]
  refine ⟨by decide, hletter _ hw, ?_⟩
  intro d
  exact isPrintable_of_mem_hexDigits

/-- The two quotes. -/
def IsQuote (q : Char) : Prop := q = '\x27' ∨ q = '\x22'

theorem isQuote_quoteFor (cs : List Char) : IsQuote (quoteFor cs) := by
  unfold quoteFor
  split
  · exact .inr rfl
  · exact .inl rfl

theorem IsQuote.isPrintable {q : Char} (h : IsQuote q) : isPrintable q = true := by
  rcases h with rfl | rfl <;> decide

theorem isPrintable_of_mem_escapeChar {q : Char} (hq : IsQuote q) (c : Char) :
    ∀ d ∈ escapeChar q c, isPrintable d = true := by
  unfold escapeChar
  split
  · next h =>
    rw [List.forall_mem_cons, List.forall_mem_singleton]
    refine ⟨by decide, ?_⟩
    rcases h with rfl | rfl
    · exact hq.isPrintable
    · decide
  split
  · exact List.all_eq_true.1 rfl
  split
  · exact List.all_eq_true.1 rfl
  split
  · exact List.all_eq_true.1 rfl
  split
  · next h => exact List.forall_mem_singleton.2 h
  · exact isPrintable_of_mem_numericEscape c

/-- Whatever the text, it is shown with characters that can be shown. -/
theorem isPrintable_of_mem_quote (cs : List Char) : ∀ c ∈ quote cs, isPrintable c = true := by
  have hq := isQuote_quoteFor cs
  intro c h
  rw [quote, List.mem_cons, List.mem_append, List.mem_singleton, List.mem_flatMap] at h
  rcases h with rfl | ⟨d, -, h⟩ | rfl
  · exact hq.isPrintable
  · exact isPrintable_of_mem_escapeChar hq d c h
  · exact hq.isPrintable

/-- The number that hexadecimal digits stand for. -/
def ofHexDigits (digits : List Char) : Nat :=
  digits.foldl (fun n c => 16 * n + (Json.hexValue? c).getD 0) 0

/-- The character of an escape, from behind its backslash, and what is left. -/
def escaped? : List Char → Option (Char × List Char)
  | [] => none
  | 'n' :: rest => some ('\n', rest)
  | 'r' :: rest => some ('\r', rest)
  | 't' :: rest => some ('\t', rest)
  | 'x' :: rest => some (Char.ofNat (ofHexDigits (rest.take 2)), rest.drop 2)
  | 'u' :: rest => some (Char.ofNat (ofHexDigits (rest.take 4)), rest.drop 4)
  | 'U' :: rest => some (Char.ofNat (ofHexDigits (rest.take 8)), rest.drop 8)
  | c :: rest => some (c, rest)

/-- The first character that is meant, and what is left. -/
def unescape? : List Char → Option (Char × List Char)
  | [] => none
  | '\\' :: rest => escaped? rest
  | c :: rest => some (c, rest)

theorem length_hexDigits (count n : Nat) : (hexDigits count n).length = count := by
  induction count generalizing n with
  | zero => rfl
  | succ count ih => rw [hexDigits, List.length_append, ih, List.length_singleton]

theorem ofHexDigits_hexDigits (count n : Nat) :
    ofHexDigits (hexDigits count n) = n % 16 ^ count := by
  have hvalue : ∀ d < 16, Json.hexValue? (Nat.digitChar d) = some d := by decide
  induction count generalizing n with
  | zero => rw [Nat.pow_zero, Nat.mod_one]; rfl
  | succ count ih =>
    have ih := ih (n / 16)
    unfold ofHexDigits at ih
    rw [hexDigits, ofHexDigits, List.foldl_append, ih, List.foldl_cons, List.foldl_nil,
      hvalue _ (Nat.mod_lt _ (by decide)), Option.getD_some, Nat.pow_succ', Nat.mod_mul,
      Nat.add_comm]

theorem escaped?_of_mem_widths {letter : Char} {count : Nat} (h : (letter, count) ∈ widths)
    (rest : List Char) : escaped? (letter :: rest) =
      some (Char.ofNat (ofHexDigits (rest.take count)), rest.drop count) := by
  simp only [widths, List.mem_cons, Prod.mk.injEq, List.not_mem_nil, or_false] at h
  rcases h with ⟨rfl, rfl⟩ | ⟨rfl, rfl⟩ | ⟨rfl, rfl⟩ <;> rfl

theorem unescape?_numericEscape (c : Char) (rest : List Char) :
    unescape? (numericEscape c.toNat ++ rest) = some (c, rest) := by
  obtain ⟨letter, count, hw, hlt, he⟩ := exists_numericEscape c
  have hl := length_hexDigits count c.toNat
  rw [he, List.cons_append, List.cons_append, unescape?, escaped?_of_mem_widths hw,
    List.take_left' hl, List.drop_left' hl, ofHexDigits_hexDigits, Nat.mod_eq_of_lt hlt,
    Char.ofNat_toNat]

theorem unescape?_escapeChar {q : Char} (hq : IsQuote q) (c : Char) (rest : List Char) :
    unescape? (escapeChar q c ++ rest) = some (c, rest) := by
  unfold escapeChar
  split
  · next h =>
    rcases h with rfl | rfl
    · rcases hq with rfl | rfl <;> rfl
    · rfl
  split
  · subst_vars
    rfl
  split
  · subst_vars
    rfl
  split
  · subst_vars
    rfl
  split
  · next h _ _ _ _ =>
    rw [List.singleton_append, unescape?]
    rintro rfl
    exact h (.inr rfl)
  · exact unescape?_numericEscape c rest

/-- No character is written like the closing quote. -/
theorem head?_escapeChar {q : Char} (hq : IsQuote q) (c : Char) :
    ∃ d rest, escapeChar q c = d :: rest ∧ d ≠ q := by
  have hslash : '\\' ≠ q := by rcases hq with rfl | rfl <;> decide
  unfold escapeChar
  split
  · exact ⟨_, _, rfl, hslash⟩
  split
  · exact ⟨_, _, rfl, hslash⟩
  split
  · exact ⟨_, _, rfl, hslash⟩
  split
  · exact ⟨_, _, rfl, hslash⟩
  split
  · next h _ _ _ _ => exact ⟨c, [], rfl, fun hc => h (.inl hc)⟩
  · obtain ⟨letter, count, -, -, he⟩ := exists_numericEscape c
    exact ⟨_, _, he, hslash⟩

theorem escaped_append_inj {q : Char} (hq : IsQuote q) {cs ds rest rest' : List Char}
    (h : cs.flatMap (escapeChar q) ++ q :: rest = ds.flatMap (escapeChar q) ++ q :: rest') :
    cs = ds ∧ rest = rest' := by
  induction cs generalizing ds with
  | nil =>
    cases ds with
    | nil => exact ⟨rfl, (List.cons.inj h).2⟩
    | cons d ds =>
      obtain ⟨e, tail, he, hne⟩ := head?_escapeChar hq d
      rw [List.flatMap_cons, he] at h
      exact absurd (List.cons.inj h).1.symm hne
  | cons c cs ih =>
    cases ds with
    | nil =>
      obtain ⟨e, tail, he, hne⟩ := head?_escapeChar hq c
      rw [List.flatMap_cons, he] at h
      exact absurd (List.cons.inj h).1 hne
    -- Reading one character back gives the same one on both sides, and the same rest.
    | cons d ds =>
      have hread := congrArg unescape? h
      simp only [List.flatMap_cons, List.append_assoc, unescape?_escapeChar hq,
        Option.some.injEq, Prod.mk.injEq] at hread
      obtain ⟨rfl, htail⟩ := hread
      obtain ⟨rfl, hrest⟩ := ih htail
      exact ⟨rfl, hrest⟩

/-- Of two texts that go on the same as quoted, both the quoted parts and the rests are the same. -/
theorem quote_append_inj {cs ds rest rest' : List Char}
    (h : quote cs ++ rest = quote ds ++ rest') : cs = ds ∧ rest = rest' := by
  simp only [quote, List.cons_append, List.append_assoc] at h
  obtain ⟨hq, htail⟩ := List.cons.inj h
  rw [← hq] at htail
  exact escaped_append_inj (isQuote_quoteFor cs) htail

end LetLang.Text
