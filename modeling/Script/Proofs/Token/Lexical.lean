import Script.Proofs.Canonical.WellFormed
import Script.Proofs.Token.Append

/-!
# The tokens of texts

A token that a text holds is more than its data: its name is a name, its number a run of digits, its
string free of quotes, and an illegal character is none that something else starts with.
-/

namespace Script

/-- Is there a text with this token? -/
def Token.isLexical : Token → Bool
  | .illegal c =>
    !isBlank c && !isWordChar c && !c.isDigit && c ≠ '"' && (Symbol.ofChar? c).isNone
  | .ident x => isName x
  | .int digits => digits.toList ≠ [] && digits.toList.all Char.isDigit
  | .str text => '"' ∉ text.toList
  | .symbol _ | .keyword _ => true

/-- The tokens of some text. -/
def Lexical (ts : List Token) : Prop :=
  ∀ t ∈ ts, t.isLexical = true

instance (ts : List Token) : Decidable (Lexical ts) :=
  inferInstanceAs (Decidable (∀ t ∈ ts, t.isLexical = true))

theorem Lexical.of_suffix {ts us : List Token} (h : Lexical ts) (suffix : us <:+ ts) : Lexical us :=
  fun t ht => h t (suffix.subset ht)

theorem Lexical.tail {t : Token} {ts : List Token} (h : Lexical (t :: ts)) : Lexical ts :=
  h.of_suffix (List.suffix_cons t ts)

theorem Lexical.append {ts us : List Token} (first : Lexical ts) (second : Lexical us) :
    Lexical (ts ++ us) :=
  List.forall_mem_append.2 ⟨first, second⟩

/-- A word is a name unless it is reserved. -/
theorem isLexical_ofWord {word : List Char} (nonempty : word ≠ [])
    (letters : ∀ c ∈ word, isWordChar c = true) :
    (Token.ofWord (String.ofList word)).isLexical = true := by
  unfold Token.ofWord
  cases reserved : Keyword.ofWord? (String.ofList word) with
  | some k => rfl
  | none => simp [Token.isLexical, isName, reserved, nonempty, List.all_eq_true.2 letters]

theorem isLexical_lexeme {c : Char} (notBlank : isBlank c = false) (s : List Char) :
    (lexeme c s).1.isLexical = true := by
  rcases lexeme_cases c s with
    word | ⟨word, digit⟩ | rfl | ⟨rest, rfl | rfl, rfl⟩ | ⟨word, digit, quote, single⟩
  · rw [lexeme_of_word word]
    refine isLexical_ofWord (List.cons_ne_nil c _) (List.forall_mem_cons.2 ⟨word, fun d hd => ?_⟩)
    exact List.mem_takeWhile_imp hd
  · rw [lexeme_of_digit word digit]
    have digits : (s.takeWhile Char.isDigit).all Char.isDigit = true := List.all_takeWhile
    simp [Token.isLexical, digit, digits]
  · rw [lexeme_quote]
    have noQuote : '"' ∉ s.takeWhile (· ≠ '"') := by
      intro quote
      simpa using List.mem_takeWhile_imp quote
    simpa [Token.isLexical] using noQuote
  · rfl
  · rfl
  · rw [lexeme_of_single word digit quote single]
    cases spelled : Symbol.ofChar? c with
    | none => simp [Token.isLexical, notBlank, word, digit, quote, spelled]
    | some symbol => rfl

/-- Whatever the text, its tokens are tokens a text can have. -/
theorem lexical_tokens (s : List Char) : Lexical (tokens s) := by
  induction n : s.length using Nat.strongRecOn generalizing s with
  | ind n ih =>
    subst n
    cases hs : s.dropWhile isBlank with
    | nil =>
      rw [tokens_of_blank hs]
      exact List.forall_mem_nil _
    | cons c rest =>
      have notBlank : isBlank c = false := by
        have stops := List.head?_dropWhile_not isBlank s
        rwa [hs] at stops
      rw [tokens_of_lexeme hs]
      exact List.forall_mem_cons.2
        ⟨isLexical_lexeme notBlank rest, ih _ (length_lexeme_lt hs) _ rfl⟩

end Script
