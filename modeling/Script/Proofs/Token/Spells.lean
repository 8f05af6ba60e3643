import Script.Text.Decimal
import Script.Proofs.Token.Indent

/-!
# Texts that spell tokens

`Spells s ts`: the text `s` consists of the tokens `ts`, and no string is left open at its end. Texts
can be put together as long as nothing joins where they meet, and a separator joins with nothing.
-/

namespace Script

/-! ## Separators -/

/-- Does `c` stand on its own, whatever is next to it? -/
def isSeparator (c : Char) : Bool :=
  !(isWordChar c || c.isDigit || c = '=' || c = '!')

theorem joins_of_isSeparator_left {c : Char} (h : isSeparator c = true) (d : Char) :
    joins c d = false := by
  simp only [isSeparator, Bool.not_eq_true', Bool.or_eq_false_iff] at h
  rcases h with ⟨⟨⟨word, digit⟩, equals⟩, bang⟩
  simp [joins, word, digit, equals, bang]

theorem joins_of_isSeparator_right {d : Char} (h : isSeparator d = true) (c : Char) :
    joins c d = false := by
  simp only [isSeparator, Bool.not_eq_true', Bool.or_eq_false_iff] at h
  rcases h with ⟨⟨⟨word, digit⟩, equals⟩, bang⟩
  simp [joins, word, digit, equals]

/-- The character `c` alone is the symbol `s`. -/
def Punctuates (c : Char) (s : Symbol) : Prop :=
  isSeparator c = true ∧ isBlank c = false ∧ c ≠ '"' ∧ Symbol.ofChar? c = some s

instance (c : Char) (s : Symbol) : Decidable (Punctuates c s) :=
  inferInstanceAs (Decidable (_ ∧ _ ∧ _ ∧ _))

/-! ## Characters of words and numbers -/

theorem not_isBlank_of_word {c : Char} (word : isWordChar c = true) : isBlank c = false := by
  refine Bool.eq_false_iff.2 fun blank => ?_
  simp only [isBlank, Bool.or_eq_true, decide_eq_true_eq] at blank
  rcases blank with ((rfl | rfl) | rfl) | rfl <;> exact absurd word (by decide)

theorem not_isBlank_of_digit {c : Char} (digit : c.isDigit = true) : isBlank c = false := by
  refine Bool.eq_false_iff.2 fun blank => ?_
  simp only [isBlank, Bool.or_eq_true, decide_eq_true_eq] at blank
  rcases blank with ((rfl | rfl) | rfl) | rfl <;> exact absurd digit (by decide)

/-! ## Putting texts together -/

def Spells (s : List Char) (ts : List Token) : Prop :=
  Closed s ∧ tokens s = ts

namespace Spells

variable {s t : List Char} {ts us : List Token} {c : Char}

theorem nil : Spells [] [] :=
  ⟨Closed.nil, tokens_of_blank rfl⟩

theorem append (first : Spells s ts) (second : Spells t us) (apart : Apart s t) :
    Spells (s ++ t) (ts ++ us) := by
  rcases first with ⟨closed, rfl⟩
  rcases second with ⟨closed', rfl⟩
  exact ⟨closed.append closed', tokens_append closed apart⟩

/-- A separator in front of a text. -/
theorem cons (separator : isSeparator c = true) (first : Spells [c] ts) (second : Spells t us) :
    Spells (c :: t) (ts ++ us) :=
  first.append second (Apart.of_last (joins_of_isSeparator_left separator) [] t)

/-- A text in front of a separator. -/
theorem before (separator : isSeparator c = true) (first : Spells s ts)
    (second : Spells (c :: t) us) : Spells (s ++ c :: t) (ts ++ us) :=
  first.append second (Apart.of_head (joins_of_isSeparator_right separator) s t)

theorem blank (h : isBlank c = true) : Spells [c] [] := by
  have quote : c ≠ '"' := by
    rintro rfl
    exact absurd h (by decide)
  have skipped : [c].dropWhile isBlank = [] := List.dropWhile_cons_of_pos h
  exact ⟨Closed.of_notMem (by simpa using Ne.symm quote), tokens_of_blank skipped⟩

theorem space (second : Spells t us) : Spells (' ' :: t) us :=
  cons (by decide) (blank (by decide)) second

theorem newline (second : Spells t us) : Spells ('\n' :: t) us :=
  cons (by decide) (blank (by decide)) second

theorem tab (second : Spells t us) : Spells ('\t' :: t) us :=
  cons (by decide) (blank (by decide)) second

theorem symbol (c : Char) (p : Symbol) (h : Punctuates c p) (second : Spells t us) :
    Spells (c :: t) (.symbol p :: us) := by
  rcases h with ⟨separator, notBlank, quote, spelled⟩
  -- A symbol that separates is one character, so it is read whatever is next to it.
  have alone := separator
  simp only [isSeparator, Bool.not_eq_true', Bool.or_eq_false_iff] at alone
  rcases alone with ⟨⟨⟨word, digit⟩, equals⟩, bang⟩
  have stays : [c].dropWhile isBlank = [c] := List.dropWhile_cons_of_neg (by simp [notBlank])
  have first : lexeme c [] = (.symbol p, []) := by
    rw [lexeme_of_single word digit quote (by simp)]
    simp [spelled]
  have closed : Closed [c] := Closed.of_notMem (by simpa using Ne.symm quote)
  have read : tokens [c] = [.symbol p] := by
    rw [tokens_of_lexeme stays, first, tokens_of_blank rfl]
  have one : Spells [c] [.symbol p] := ⟨closed, read⟩
  exact cons separator one second

/-- A text between two brackets. -/
theorem enclosed (c d : Char) (p q : Symbol) (opening : Punctuates c p) (closing : Punctuates d q)
    (h : Spells s ts) : Spells (c :: s ++ [d]) (.symbol p :: (ts ++ [.symbol q])) :=
  symbol c p opening (h.before closing.1 (symbol d q closing nil))

/-- Indentation changes nothing. -/
theorem indent (h : Spells s ts) : Spells (indent false s) ts := by
  rcases h with ⟨closed, rfl⟩
  exact ⟨closed.indent false, tokens_indent s⟩

/-! ## Tokens of many characters -/

theorem word (nonempty : s ≠ []) (word : ∀ c ∈ s, isWordChar c = true) :
    Spells s [.ofWord (String.ofList s)] := by
  have noQuote : '"' ∉ s := fun h => absurd (word _ h) (by decide)
  refine ⟨Closed.of_notMem noQuote, ?_⟩
  cases s with
  | nil => exact absurd rfl nonempty
  | cons c s =>
    -- The whole text is one run, with nothing left behind it.
    have first : isWordChar c = true := word c (by simp)
    have others : ∀ d ∈ s, isWordChar d = true := fun d h => word d (List.mem_cons_of_mem c h)
    have notBlank : ¬ isBlank c = true := Bool.eq_false_iff.1 (not_isBlank_of_word first)
    rw [tokens_of_lexeme (List.dropWhile_cons_of_neg notBlank), lexeme_of_word first,
      List.takeWhile_eq_self_iff.2 others, List.dropWhile_eq_nil_iff.2 others, tokens_of_blank rfl]

theorem isWordChar_of_isDigit (h : c.isDigit = true) : isWordChar c = false := by
  have range : 48 ≤ c.toNat ∧ c.toNat ≤ 57 := by
    simpa [Char.isDigit, UInt32.le_iff_toNat_le] using h
  have underscore : c ≠ '_' := by
    rintro rfl
    exact absurd h (by decide)
  -- The digits come before the letters of both cases.
  have notUpper : c.isUpper = false := by
    have before : ¬ (c.val ≥ 65 ∧ c.val ≤ 90) := by
      rintro ⟨above, -⟩
      have letter : 65 ≤ c.toNat := UInt32.le_iff_toNat_le.1 above
      omega
    exact decide_eq_false before
  have notLower : c.isLower = false := by
    have before : ¬ c.val ≥ 97 := by
      intro above
      have letter : 97 ≤ c.toNat := UInt32.le_iff_toNat_le.1 above
      omega
    exact Bool.and_eq_false_iff.2 (.inl (decide_eq_false before))
  have notLetter : c.isAlpha = false := Bool.or_eq_false_iff.2 ⟨notUpper, notLower⟩
  simp [isWordChar, notLetter, underscore]

theorem number (nonempty : s ≠ []) (digit : ∀ c ∈ s, c.isDigit = true) :
    Spells s [.int (String.ofList s)] := by
  have noQuote : '"' ∉ s := fun h => absurd (digit _ h) (by decide)
  refine ⟨Closed.of_notMem noQuote, ?_⟩
  cases s with
  | nil => exact absurd rfl nonempty
  | cons c s =>
    have first : c.isDigit = true := digit c (by simp)
    have others : ∀ d ∈ s, d.isDigit = true := fun d h => digit d (List.mem_cons_of_mem c h)
    have notBlank : ¬ isBlank c = true := Bool.eq_false_iff.1 (not_isBlank_of_digit first)
    rw [tokens_of_lexeme (List.dropWhile_cons_of_neg notBlank),
      lexeme_of_digit (isWordChar_of_isDigit first) first,
      List.takeWhile_eq_self_iff.2 others, List.dropWhile_eq_nil_iff.2 others, tokens_of_blank rfl]

theorem digits (n : Nat) :
    Spells (Decimal.ofNat n) [.int (String.ofList (Decimal.ofNat n))] :=
  number (Decimal.ofNat_ne_nil n) fun _ => Decimal.isDigit_of_mem_ofNat

/-- A string without quotes in it. -/
theorem str (noQuote : '"' ∉ s) : Spells ('"' :: s ++ ['"']) [.str (String.ofList s)] := by
  -- The only quotes are the two at the ends.
  have closed : Closed ('"' :: s ++ ['"']) := by
    unfold Closed
    simp [List.count_eq_zero.2 noQuote]
  refine ⟨closed, ?_⟩
  have stays : ('"' :: s ++ ['"']).dropWhile isBlank = '"' :: (s ++ ['"']) := rfl
  rw [tokens_of_lexeme stays, lexeme_string noQuote, tokens_of_blank rfl]

end Spells
end Script
