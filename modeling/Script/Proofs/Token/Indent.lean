import Script.Program.Text
import Script.Proofs.Token.Append

/-!
# Indentation does not change the tokens

`indent false s` puts a tab behind every line break of `s` that is outside a string. Such a line break
is a blank and so is the tab, so both texts have the same tokens, and this holds of every text,
whether its strings are closed or not.

Main statement: `tokens_indent`.
-/

namespace Script

/-! ## Indenting character by character -/

theorem indent_quote (quoted : Bool) (s : List Char) :
    indent quoted ('"' :: s) = '"' :: indent (!quoted) s := rfl

/-- Outside a string only line breaks are followed by anything new. -/
theorem indent_of_ne {c : Char} (quote : c ≠ '"') (newline : c ≠ '\n') (s : List Char) :
    indent false (c :: s) = c :: indent false s := by
  simp [indent, quote, newline]

/-- Inside a string nothing is new. -/
theorem indent_true_of_ne {c : Char} (quote : c ≠ '"') (s : List Char) :
    indent true (c :: s) = c :: indent true s := by
  simp [indent, quote]

theorem head?_indent (quoted : Bool) (s : List Char) : (indent quoted s).head? = s.head? := by
  cases s with
  | nil => rfl
  | cons c s =>
    unfold indent
    split
    · rfl
    · split <;> rfl

/-- No quote is added or lost. -/
theorem count_quote_indent (quoted : Bool) (s : List Char) :
    (indent quoted s).count '"' = s.count '"' := by
  induction s generalizing quoted with
  | nil => rfl
  | cons c s ih =>
    unfold indent
    split
    · rw [List.count_cons, List.count_cons, ih]
    · split <;> simp [List.count_cons, ih]

theorem Closed.indent {s : List Char} (closed : Closed s) (quoted : Bool) :
    Closed (indent quoted s) := by
  unfold Closed
  rwa [count_quote_indent]

/-! ## Indenting and runs of one class -/

/-- A run of characters of a class without quotes and line breaks is left alone. -/
theorem takeWhile_indent {p : Char → Bool} (quote : p '"' = false) (newline : p '\n' = false)
    (s : List Char) :
    (indent false s).takeWhile p = s.takeWhile p ∧
      (indent false s).dropWhile p = indent false (s.dropWhile p) := by
  induction s with
  | nil => exact ⟨rfl, rfl⟩
  | cons c s ih =>
    by_cases hc : p c = true
    · have not_quote : c ≠ '"' := by
        rintro rfl
        simp [quote] at hc
      have not_newline : c ≠ '\n' := by
        rintro rfl
        simp [newline] at hc
      simp [indent_of_ne not_quote not_newline, hc, ih.1, ih.2]
    -- The first character is the same in both texts, and it stops the run in both.
    · have first : (indent false (c :: s)).head? = some c := head?_indent false (c :: s)
      rcases List.head?_eq_some_iff.1 first with ⟨t, ht⟩
      rw [List.dropWhile_cons_of_neg hc, List.takeWhile_cons_of_neg hc, ht,
        List.dropWhile_cons_of_neg hc, List.takeWhile_cons_of_neg hc]
      exact ⟨rfl, rfl⟩

/-- A string is left alone up to its closing quote. -/
theorem takeWhile_indent_true (s : List Char) :
    (indent true s).takeWhile (· ≠ '"') = s.takeWhile (· ≠ '"') ∧
      (indent true s).dropWhile (· ≠ '"') = indent true (s.dropWhile (· ≠ '"')) := by
  induction s with
  | nil => exact ⟨rfl, rfl⟩
  | cons c s ih =>
    by_cases hc : c = '"'
    · subst hc
      exact ⟨rfl, rfl⟩
    · rw [indent_true_of_ne hc]
      simp only [List.takeWhile_cons, List.dropWhile_cons, hc, ne_eq, not_false_eq_true,
        decide_true, if_true, ih.1, ih.2, and_self]

/-- Blanks stay blanks. -/
theorem dropWhile_isBlank_indent (s : List Char) :
    (indent false s).dropWhile isBlank = indent false (s.dropWhile isBlank) := by
  induction s with
  | nil => rfl
  | cons c s ih =>
    by_cases hc : isBlank c = true
    · have quote : c ≠ '"' := by
        rintro rfl
        exact absurd hc (by decide)
      rw [List.dropWhile_cons_of_pos hc, ← ih]
      -- A line break brings a tab with it, which is left out like the line break.
      by_cases newline : c = '\n'
      · subst newline
        rfl
      · rw [indent_of_ne quote newline, List.dropWhile_cons_of_pos hc]
    · have first : (indent false (c :: s)).head? = some c := head?_indent false (c :: s)
      rcases List.head?_eq_some_iff.1 first with ⟨t, ht⟩
      rw [List.dropWhile_cons_of_neg hc, ht, List.dropWhile_cons_of_neg hc]

/-! ## Tokens -/

/-- The token at the front is the same, and what is left behind it is indented as well. -/
theorem lexeme_indent {c : Char} (blank : isBlank c = false) (s : List Char) :
    ∃ t, indent false (c :: s) = c :: t ∧
      lexeme c t = ((lexeme c s).1, indent false (lexeme c s).2) := by
  have newline : c ≠ '\n' := by
    rintro rfl
    exact absurd blank (by decide)
  by_cases quote : c = '"'
  · subst quote
    refine ⟨_, indent_quote false s, ?_⟩
    -- The opening quote starts a string, and indentation is off until the closing one.
    have run := takeWhile_indent_true s
    rw [Bool.not_false, lexeme_quote, lexeme_quote, run.1, run.2]
    cases h : s.dropWhile (· ≠ '"') with
    | nil => rfl
    | cons d rest =>
      have stops := List.head?_dropWhile_not (· ≠ '"') s
      rw [h] at stops
      have closing : d = '"' := by simpa using stops
      subst closing
      rfl
  · refine ⟨_, indent_of_ne quote newline s, ?_⟩
    rcases lexeme_cases c s with
      word | ⟨word, digit⟩ | rfl | ⟨rest, rfl | rfl, rfl⟩ | ⟨word, digit, _, single⟩
    -- Words and numbers hold neither quotes nor line breaks.
    · have run := takeWhile_indent (p := isWordChar) (by decide) (by decide) s
      rw [lexeme_of_word word, lexeme_of_word word, run.1, run.2]
    · have run := takeWhile_indent (p := Char.isDigit) (by decide) (by decide) s
      rw [lexeme_of_digit word digit, lexeme_of_digit word digit, run.1, run.2]
    · exact absurd rfl quote
    · rfl
    · rfl
    · rw [lexeme_of_single word digit quote single,
        lexeme_of_single word digit quote fun h => head?_indent false s ▸ single h]

theorem tokens_indent (s : List Char) : tokens (indent false s) = tokens s := by
  induction n : s.length using Nat.strongRecOn generalizing s with
  | ind n ih =>
    subst n
    have skip := dropWhile_isBlank_indent s
    cases hs : s.dropWhile isBlank with
    | nil =>
      rw [hs] at skip
      rw [tokens_of_blank hs, tokens_of_blank skip]
    | cons c rest =>
      have blank : isBlank c = false := by
        have stops := List.head?_dropWhile_not isBlank s
        rwa [hs] at stops
      rcases lexeme_indent blank rest with ⟨t, ht, same⟩
      rw [hs, ht] at skip
      rw [tokens_of_lexeme hs, tokens_of_lexeme skip, same, ih _ (length_lexeme_lt hs) _ rfl]

end Script
