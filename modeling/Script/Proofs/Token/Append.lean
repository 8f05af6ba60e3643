import Mathlib.Data.List.TakeWhile
import Script.Token.Scan

/-!
# Reading two texts one after the other

`tokens (s ++ t)` is `tokens s ++ tokens t` as soon as two things hold of the place where the texts
meet:

* `Closed s`: it is outside every string, which is to say that `s` has an even number of quotes;
* `Apart s t`: no word, number or operator goes over it.

Main statement: `tokens_append`. The two conditions are kept by taking one token off the front of
`s`, so the proof is an induction along the reading of `s`.
-/

namespace Script

/-! ## The place where two texts meet -/

/-- Would the two characters, next to each other and outside a string, be read as one token? -/
def joins (c d : Char) : Bool :=
  isWordChar c && isWordChar d || c.isDigit && d.isDigit || (c = '=' || c = '!') && d = '='

/-- No token goes over from the end of `s` to the start of `t`. -/
def Apart (s t : List Char) : Prop :=
  ∀ c ∈ s.getLast?, ∀ d ∈ t.head?, joins c d = false

/-- Every string that starts in `s` also ends there. -/
def Closed (s : List Char) : Prop :=
  s.count '"' % 2 = 0

theorem Apart.nil_right (s : List Char) : Apart s [] := by
  intro c _ d hd
  simp at hd

/-- A character that joins with nothing before it separates whatever stands there. -/
theorem Apart.of_head {d : Char} (h : ∀ c, joins c d = false) (s t : List Char) :
    Apart s (d :: t) := by
  intro c _ d' hd'
  have same : d = d' := by simpa using hd'
  exact same ▸ h c

/-- A character that joins with nothing behind it separates whatever stands there. -/
theorem Apart.of_last {c : Char} (h : ∀ d, joins c d = false) (s t : List Char) :
    Apart (s ++ [c]) t := by
  intro c' hc' d _
  have same : c = c' := by simpa using hc'
  exact same ▸ h d

theorem Apart.of_suffix {s s' t : List Char} (suffix : s' <:+ s) (apart : Apart s t) :
    Apart s' t := by
  rcases suffix with ⟨u, rfl⟩
  intro c hc
  refine apart c ?_
  -- An end of a text that is not empty has the same last character.
  have last : s'.getLast? = some c := hc
  rw [List.getLast?_append, last]
  rfl

theorem Closed.nil : Closed [] := rfl

theorem Closed.append {s t : List Char} (hs : Closed s) (ht : Closed t) : Closed (s ++ t) := by
  have count : (s ++ t).count '"' = s.count '"' + t.count '"' := List.count_append
  unfold Closed at *
  omega

/-- A text without quotes opens no string. -/
theorem Closed.of_notMem {s : List Char} (h : '"' ∉ s) : Closed s := by
  unfold Closed
  rw [List.count_eq_zero.2 h]

/-- Leaving out a run of characters that are no quotes keeps the number of quotes. -/
theorem count_dropWhile_of_quote {p : Char → Bool} (h : p '"' = false) (s : List Char) :
    (s.dropWhile p).count '"' = s.count '"' := by
  induction s with
  | nil => rfl
  | cons c s ih =>
    by_cases hc : p c = true
    -- What is left out is not a quote, so it does not count.
    · have ne : c ≠ '"' := by
        rintro rfl
        simp [h] at hc
      rw [List.dropWhile_cons_of_pos hc, ih, List.count_cons_of_ne ne]
    · rw [List.dropWhile_cons_of_neg hc]

/-! ## One token -/

theorem lexeme_of_word {c : Char} (h : isWordChar c = true) (s : List Char) :
    lexeme c s =
      (.ofWord (String.ofList (c :: s.takeWhile isWordChar)), s.dropWhile isWordChar) := by
  simp only [lexeme, h, if_true]

theorem lexeme_of_digit {c : Char} (word : isWordChar c = false) (h : c.isDigit = true)
    (s : List Char) :
    lexeme c s =
      (.int (String.ofList (c :: s.takeWhile Char.isDigit)), s.dropWhile Char.isDigit) := by
  simp only [lexeme, word, h, if_true, Bool.false_eq_true, if_false]

theorem lexeme_quote (s : List Char) :
    lexeme '"' s =
      (.str (String.ofList (s.takeWhile (· ≠ '"'))), (s.dropWhile (· ≠ '"')).drop 1) := rfl

/-- A string goes up to the first quote. -/
theorem lexeme_string {text : List Char} (noQuote : '"' ∉ text) (s : List Char) :
    lexeme '"' (text ++ '"' :: s) = (.str (String.ofList text), s) := by
  have inside : ∀ c ∈ text, decide (c ≠ '"') = true := by
    intro c here
    exact decide_eq_true fun same => noQuote (same ▸ here)
  rw [lexeme_quote, List.takeWhile_append_of_pos inside, List.dropWhile_append_of_pos inside]
  simp

/-- The operators of two characters. -/
theorem lexeme_equal (s : List Char) : lexeme '=' ('=' :: s) = (.symbol .equal, s) := rfl

theorem lexeme_notEqual (s : List Char) : lexeme '!' ('=' :: s) = (.symbol .notEqual, s) := rfl

/-- Any other token is a single character. -/
theorem lexeme_of_single {c : Char} (word : isWordChar c = false) (digit : c.isDigit = false)
    (quote : c ≠ '"') {s : List Char} (h : (c = '=' || c = '!') = true → s.head? ≠ some '=') :
    lexeme c s = (((Symbol.ofChar? c).elim (.illegal c) .symbol), s) := by
  simp only [lexeme, word, digit, quote, Bool.false_eq_true, if_false]
  split
  · simp at h
  · simp at h
  · cases Symbol.ofChar? c <;> rfl

/-- What can start a token. -/
theorem lexeme_cases (c : Char) (s : List Char) :
    isWordChar c = true ∨ (isWordChar c = false ∧ c.isDigit = true) ∨ c = '"' ∨
      (∃ rest, (c = '=' ∨ c = '!') ∧ s = '=' :: rest) ∨
      (isWordChar c = false ∧ c.isDigit = false ∧ c ≠ '"' ∧
        ((c = '=' || c = '!') = true → s.head? ≠ some '=')) := by
  by_cases word : isWordChar c = true
  · exact .inl word
  by_cases digit : c.isDigit = true
  · exact .inr (.inl ⟨by simpa using word, digit⟩)
  by_cases quote : c = '"'
  · exact .inr (.inr (.inl quote))
  -- An operator of two characters needs both; one of them alone is a token like any other.
  by_cases double : (c = '=' ∨ c = '!') ∧ s.head? = some '='
  · rcases List.head?_eq_some_iff.1 double.2 with ⟨rest, hrest⟩
    exact .inr (.inr (.inr (.inl ⟨rest, double.1, hrest⟩)))
  · refine .inr (.inr (.inr (.inr ⟨by simpa using word, by simpa using digit, quote, ?_⟩)))
    intro single equals
    exact double ⟨by simpa using single, equals⟩

/-- What is left behind a token is an end of the text. -/
theorem lexeme_suffix (c : Char) (s : List Char) : (lexeme c s).2 <:+ s := by
  rcases lexeme_cases c s with
    word | ⟨word, digit⟩ | rfl | ⟨rest, rfl | rfl, rfl⟩ | ⟨word, digit, quote, single⟩
  · rw [lexeme_of_word word]
    exact List.dropWhile_suffix _
  · rw [lexeme_of_digit word digit]
    exact List.dropWhile_suffix _
  · rw [lexeme_quote]
    exact (List.drop_suffix 1 _).trans (List.dropWhile_suffix _)
  · rw [lexeme_equal]
    exact List.suffix_cons _ _
  · rw [lexeme_notEqual]
    exact List.suffix_cons _ _
  · have same : (lexeme c s).2 = s := by rw [lexeme_of_single word digit quote single]
    exact ⟨[], same⟩

/-- Behind the opening quote of a closed text there is a closing one. -/
theorem exists_dropWhile_eq_quote {s : List Char} (closed : Closed ('"' :: s)) :
    ∃ rest, s.dropWhile (· ≠ '"') = '"' :: rest ∧ Closed rest := by
  -- The opening quote has a partner, and the first quote behind it is that partner.
  have odd : s.count '"' % 2 = 1 := by
    unfold Closed at closed
    rw [List.count_cons_self] at closed
    omega
  have kept := count_dropWhile_of_quote (p := (· ≠ '"')) (by simp) s
  cases h : s.dropWhile (· ≠ '"') with
  | nil =>
    rw [h, List.count_nil] at kept
    omega
  | cons d rest =>
    -- A run of characters that are no quotes can only stop at a quote.
    have stops := List.head?_dropWhile_not (· ≠ '"') s
    rw [h] at stops
    have quote : d = '"' := by simpa using stops
    subst quote
    rw [h, List.count_cons_self] at kept
    refine ⟨rest, rfl, ?_⟩
    unfold Closed
    omega

theorem Closed.of_cons {c : Char} {s : List Char} (quote : c ≠ '"') (closed : Closed (c :: s)) :
    Closed s := by
  unfold Closed at *
  rwa [List.count_cons_of_ne quote] at closed

theorem Closed.dropWhile {p : Char → Bool} (h : p '"' = false) {s : List Char}
    (closed : Closed s) : Closed (s.dropWhile p) := by
  unfold Closed
  rwa [count_dropWhile_of_quote h]

/-- Taking a token off the front of a closed text leaves a closed text. -/
theorem closed_lexeme {c : Char} {s : List Char} (closed : Closed (c :: s)) :
    Closed (lexeme c s).2 := by
  rcases lexeme_cases c s with
    word | ⟨word, digit⟩ | rfl | ⟨rest, rfl | rfl, rfl⟩ | ⟨word, digit, quote, single⟩
  · have quote : c ≠ '"' := by
      rintro rfl
      exact absurd word (by decide)
    rw [lexeme_of_word word]
    exact (closed.of_cons quote).dropWhile (by decide)
  · have quote : c ≠ '"' := by
      rintro rfl
      exact absurd digit (by decide)
    rw [lexeme_of_digit word digit]
    exact (closed.of_cons quote).dropWhile (by decide)
  · rcases exists_dropWhile_eq_quote closed with ⟨rest, hrest, closed'⟩
    rw [lexeme_quote, hrest]
    exact closed'
  · exact (closed.of_cons (by decide)).of_cons (by decide)
  · exact (closed.of_cons (by decide)).of_cons (by decide)
  · rw [lexeme_of_single word digit quote single]
    exact closed.of_cons quote

/-! ## A token does not see what follows its text -/

/-- A run of characters of one class ends where the text does, if the next character is of another
class. -/
theorem takeWhile_append_of_getLast {p : Char → Bool} {c : Char} {s t : List Char}
    (hc : p c = true) (apart : ∀ a ∈ (c :: s).getLast?, ∀ d ∈ t.head?, p a = true → p d = false) :
    (s ++ t).takeWhile p = s.takeWhile p ∧ (s ++ t).dropWhile p = s.dropWhile p ++ t := by
  induction s generalizing c with
  | nil =>
    cases t with
    | nil => simp
    | cons d t =>
      -- The run comes to the end of the text, so the next character has to stop it.
      have hd : p d = false := apart c (by simp) d (by simp) hc
      simp [hd]
  | cons a s ih =>
    by_cases ha : p a = true
    · have rest := ih (c := a) ha (by simpa using apart)
      simp [ha, rest.1, rest.2]
    · simp [ha]

/-- A run that ends before the text does is not changed by what follows. -/
theorem takeWhile_append_of_stop {p : Char → Bool} {s rest : List Char} {d : Char}
    (h : s.dropWhile p = d :: rest) (t : List Char) :
    (s ++ t).takeWhile p = s.takeWhile p ∧ (s ++ t).dropWhile p = d :: rest ++ t := by
  induction s with
  | nil => simp at h
  | cons a s ih =>
    by_cases ha : p a = true
    · rw [List.dropWhile_cons_of_pos ha] at h
      have run := ih h
      simp [ha, run.1, run.2]
    · rw [List.dropWhile_cons_of_neg ha] at h
      simp [ha, ← h]

/-- What is read off the front of `s` is also read off the front of `s ++ t`. -/
theorem lexeme_append {c : Char} {s t : List Char} (closed : Closed (c :: s))
    (apart : Apart (c :: s) t) :
    lexeme c (s ++ t) = ((lexeme c s).1, (lexeme c s).2 ++ t) := by
  rcases lexeme_cases c s with
    word | ⟨word, digit⟩ | rfl | ⟨rest, rfl | rfl, rfl⟩ | ⟨word, digit, quote, single⟩
  · have run := takeWhile_append_of_getLast (t := t) (s := s) word fun a ha d hd hpa => by
      -- Two word characters would join, so the word ends where the text does.
      have not_joined := apart a ha d hd
      simp only [joins, hpa, Bool.true_and, Bool.or_eq_false_iff] at not_joined
      exact not_joined.1.1
    rw [lexeme_of_word word, lexeme_of_word word, run.1, run.2]
  · have run := takeWhile_append_of_getLast (t := t) (s := s) digit fun a ha d hd hpa => by
      -- The same for two digits.
      have not_joined := apart a ha d hd
      simp only [joins, hpa, Bool.true_and, Bool.or_eq_false_iff] at not_joined
      exact not_joined.1.2
    rw [lexeme_of_digit word digit, lexeme_of_digit word digit, run.1, run.2]
  -- The string is closed inside `s`, so it does not come to the place where the texts meet.
  · rcases exists_dropWhile_eq_quote closed with ⟨rest, hrest, _⟩
    have run := takeWhile_append_of_stop hrest t
    rw [lexeme_quote, lexeme_quote, run.1, run.2, hrest]
    rfl
  · rfl
  · rfl
  · have single' : (c = '=' || c = '!') = true → (s ++ t).head? ≠ some '=' := by
      intro hc
      cases s with
      | cons a s => simpa using single hc
      | nil =>
        intro equals
        -- The operator is the last character of its text and would join with the equals sign.
        have joined := apart c (by simp) '=' (by simpa using equals)
        simp [joins, hc] at joined
    rw [lexeme_of_single word digit quote single, lexeme_of_single word digit quote single']

/-! ## All tokens -/

theorem tokens_of_blank {s : List Char} (h : s.dropWhile isBlank = []) : tokens s = [] := by
  have ended : next? s = none := by simp [next?, h]
  rw [tokens]
  split
  · rfl
  · rename_i read
    simp [ended] at read

/-- Behind its blanks a text is a token and what is left behind it. -/
theorem tokens_of_lexeme {s rest : List Char} {c : Char} (h : s.dropWhile isBlank = c :: rest) :
    tokens s = (lexeme c rest).1 :: tokens (lexeme c rest).2 := by
  have first : next? s = some (lexeme c rest) := by simp [next?, h]
  rw [tokens]
  split
  · rename_i read
    simp [first] at read
  · rename_i t us read
    rw [first, Option.some.injEq] at read
    rw [read]

theorem length_lexeme_lt {s rest : List Char} {c : Char} (h : s.dropWhile isBlank = c :: rest) :
    (lexeme c rest).2.length < s.length := by
  have skipped := length_dropWhile_le isBlank s
  have read := length_lexeme_le c rest
  rw [h, List.length_cons] at skipped
  omega

/-- Blanks in front of a text make no difference. -/
theorem tokens_append_of_blank {s : List Char} (h : ∀ c ∈ s, isBlank c = true) (t : List Char) :
    tokens (s ++ t) = tokens t := by
  have skip : (s ++ t).dropWhile isBlank = t.dropWhile isBlank := List.dropWhile_append_of_pos h
  cases ht : t.dropWhile isBlank with
  | nil => rw [tokens_of_blank ht, tokens_of_blank (skip.trans ht)]
  | cons c rest => rw [tokens_of_lexeme ht, tokens_of_lexeme (skip.trans ht)]

/-- A text that is closed and apart from what follows is read on its own. -/
theorem tokens_append {s t : List Char} (closed : Closed s) (apart : Apart s t) :
    tokens (s ++ t) = tokens s ++ tokens t := by
  induction n : s.length using Nat.strongRecOn generalizing s with
  | ind n ih =>
    subst n
    cases hs : s.dropWhile isBlank with
    | nil =>
      have blank : ∀ c ∈ s, isBlank c = true := List.dropWhile_eq_nil_iff.1 hs
      rw [tokens_append_of_blank blank, tokens_of_blank hs, List.nil_append]
    | cons c rest =>
      -- One token off the front; what is left is shorter, closed, and ends as `s` does.
      have suffix : c :: rest <:+ s := hs ▸ List.dropWhile_suffix _
      have closed' : Closed (c :: rest) := hs ▸ closed.dropWhile (by decide)
      have apart' : Apart (c :: rest) t := apart.of_suffix suffix
      have skip : (s ++ t).dropWhile isBlank = c :: (rest ++ t) := by
        have some_left : ¬ (s.dropWhile isBlank).isEmpty = true := by simp [hs]
        rw [List.dropWhile_append, if_neg some_left, hs]
        rfl
      have suffix' : (lexeme c rest).2 <:+ c :: rest :=
        (lexeme_suffix c rest).trans (List.suffix_cons _ _)
      have others : tokens ((lexeme c rest).2 ++ t) = tokens (lexeme c rest).2 ++ tokens t :=
        ih _ (length_lexeme_lt hs) (closed_lexeme closed') (apart'.of_suffix suffix') rfl
      rw [tokens_of_lexeme hs, tokens_of_lexeme skip, lexeme_append closed' apart', others]
      rfl

end Script
