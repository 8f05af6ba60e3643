import Script.Proofs.Token.Append
import Script.Proofs.Token.Spells

/-!
# What a text is cut into

`Lexeme before t x after` says, without reading anything, which pieces of a text are tokens: standing
between `before` and `after`, the piece `x` is the token `t`. `Cut before ts s` cuts the text `s`, which
stands behind `before`, into pieces that are tokens, with blanks between them.

Every text can be cut in just one way, and this is how it is read: nothing is lost, runs of letters and
of digits are never cut short, and once the tokens are used up there is only the end of the input. Main
statement: `tokens_exact`.
-/

namespace Script

/-! ## Pieces -/

/-- The piece is a run of characters of a class, and longer in no direction. -/
structure MaximalRun (p : Char → Bool) (before x after : List Char) : Prop where
  nonempty : x ≠ []
  inside : ∀ c ∈ x, p c = true
  front : ∀ c ∈ before.getLast?, p c = false
  behind : ∀ c ∈ after.head?, p c = false

/-- No blank, word, number, string or symbol starts with the character. -/
structure StartsNothing (c : Char) : Prop where
  blank : isBlank c = false
  word : isWordChar c = false
  digit : c.isDigit = false
  quote : c ≠ '"'
  symbol : ∀ s : Symbol, s.text.toList.head? ≠ some c

inductive Lexeme (before : List Char) : Token → List Char → List Char → Prop
  | ident {name : String} {after : List Char} :
      MaximalRun isWordChar before name.toList after → (∀ k : Keyword, k.text ≠ name) →
      Lexeme before (.ident name) name.toList after
  | keyword {k : Keyword} {after : List Char} : MaximalRun isWordChar before k.text.toList after →
      Lexeme before (.keyword k) k.text.toList after
  | int {digits : String} {after : List Char} :
      MaximalRun Char.isDigit before digits.toList after →
      Lexeme before (.int digits) digits.toList after
  | str {text : String} {after : List Char} : '"' ∉ text.toList →
      Lexeme before (.str text) ('"' :: text.toList ++ ['"']) after
  /-- A string that is not closed runs to the end of the text. -/
  | openStr {text : String} : '"' ∉ text.toList →
      Lexeme before (.str text) ('"' :: text.toList) []
  | symbol {s : Symbol} {after : List Char} :
      (s = .assign ∨ s = .bang → after.head? ≠ some '=') →
      Lexeme before (.symbol s) s.text.toList after
  | illegal {c : Char} {after : List Char} : StartsNothing c → Lexeme before (.illegal c) [c] after

/-- The text behind `before` is cut into pieces that are the tokens, with blanks between them. -/
inductive Cut : List Char → List Token → List Char → Prop
  | last {before w : List Char} : (∀ c ∈ w, isBlank c = true) → Cut before [] w
  | token {before w x rest : List Char} {t : Token} {ts : List Token} :
      (∀ c ∈ w, isBlank c = true) → Lexeme (before ++ w) t x rest → Cut (before ++ w ++ x) ts rest →
      Cut before (t :: ts) (w ++ x ++ rest)

/-! ## A piece is read as its token -/

/-- What is read of a run and what follows it: its first character, its others, and the rest. -/
theorem MaximalRun.read {p : Char → Bool} {before x after : List Char}
    (run : MaximalRun p before x after) :
    ∃ c rest, x ++ after = c :: rest ∧ p c = true ∧ c :: rest.takeWhile p = x ∧
      rest.dropWhile p = after := by
  rcases run with ⟨nonempty, inside, -, behind⟩
  cases x with
  | nil => exact absurd rfl nonempty
  | cons c x =>
    rcases List.forall_mem_cons.1 inside with ⟨first, others⟩
    refine ⟨c, x ++ after, rfl, first, ?_⟩
    rw [List.takeWhile_append_of_pos others, List.dropWhile_append_of_pos others]
    cases after with
    | nil => simp
    | cons d after =>
      -- The character behind the run stops it.
      have stops : p d = false := behind d rfl
      simp [stops]

theorem Token.ofWord_of_free {name : String} (free : ∀ k : Keyword, k.text ≠ name) :
    Token.ofWord name = .ident name := by
  have missing : Keyword.ofWord? name = none :=
    List.find?_eq_none.2 fun k _ same => free k (of_decide_eq_true same)
  rw [Token.ofWord, missing]

theorem Symbol.ofChar?_eq_none_iff {c : Char} :
    Symbol.ofChar? c = none ↔ ∀ s : Symbol, s.text.toList.head? ≠ some c := by
  constructor
  · intro missing s starts
    have other (u : Symbol) : u.text.toList ≠ [c] := fun same =>
      List.find?_eq_none.1 missing u u.mem_all (decide_eq_true same)
    have alone := other s
    -- The symbols of two characters start with a symbol of one.
    cases s with
    | equal => exact other .assign (by simpa [Symbol.text] using starts)
    | notEqual => exact other .bang (by simpa [Symbol.text] using starts)
    | _ => exact alone (by simpa [Symbol.text] using starts)
  · intro free
    refine List.find?_eq_none.2 fun s _ same => free s ?_
    rw [of_decide_eq_true same]
    rfl

theorem lexeme_of_symbol {s : Symbol} {after : List Char}
    (single : s = .assign ∨ s = .bang → after.head? ≠ some '=') :
    ∃ c rest, s.text.toList ++ after = c :: rest ∧ isBlank c = false ∧
      lexeme c rest = (.symbol s, after) := by
  have alone (c : Char) (word : isWordChar c = false) (digit : c.isDigit = false) (quote : c ≠ '"')
      (spelled : Symbol.ofChar? c = some s)
      (h : (c = '=' || c = '!') = true → after.head? ≠ some '=') :
      lexeme c after = (.symbol s, after) := by
    rw [lexeme_of_single word digit quote h, spelled]
    rfl
  cases s with
  | equal => exact ⟨'=', '=' :: after, rfl, rfl, rfl⟩
  | notEqual => exact ⟨'!', '=' :: after, rfl, rfl, rfl⟩
  | assign => exact ⟨_, _, rfl, rfl, alone _ rfl rfl (by decide) rfl fun _ => single (.inl rfl)⟩
  | bang => exact ⟨_, _, rfl, rfl, alone _ rfl rfl (by decide) rfl fun _ => single (.inr rfl)⟩
  | _ => exact ⟨_, _, rfl, rfl, alone _ rfl rfl (by decide) rfl (absurd · (by decide))⟩

/-- In front of what follows it, the piece is read as its token. -/
theorem Lexeme.read {before x after : List Char} {t : Token} (piece : Lexeme before t x after) :
    ∃ c rest, x ++ after = c :: rest ∧ isBlank c = false ∧ lexeme c rest = (t, after) := by
  cases piece with
  | ident run free =>
    rcases run.read with ⟨c, rest, start, word, whole, behind⟩
    refine ⟨c, rest, start, not_isBlank_of_word word, ?_⟩
    rw [lexeme_of_word word, whole, behind, String.ofList_toList, Token.ofWord_of_free free]
  | keyword run =>
    rcases run.read with ⟨c, rest, start, word, whole, behind⟩
    refine ⟨c, rest, start, not_isBlank_of_word word, ?_⟩
    rw [lexeme_of_word word, whole, behind, String.ofList_toList, Token.ofWord,
      Keyword.ofWord?_text]
  | int run =>
    rcases run.read with ⟨c, rest, start, digit, whole, behind⟩
    refine ⟨c, rest, start, not_isBlank_of_digit digit, ?_⟩
    rw [lexeme_of_digit (Spells.isWordChar_of_isDigit digit) digit, whole, behind,
      String.ofList_toList]
  | @str text _ noQuote =>
    refine ⟨'"', text.toList ++ '"' :: after, by simp, rfl, ?_⟩
    rw [lexeme_string noQuote, String.ofList_toList]
  | @openStr text noQuote =>
    have inside : ∀ c ∈ text.toList, decide (c ≠ '"') = true := by
      intro c here
      exact decide_eq_true fun same => noQuote (same ▸ here)
    refine ⟨'"', text.toList, by simp, rfl, ?_⟩
    rw [lexeme_quote, List.takeWhile_eq_self_iff.2 inside, List.dropWhile_eq_nil_iff.2 inside]
    simp
  | symbol single => exact lexeme_of_symbol single
  | @illegal c _ nothing =>
    have lone : (c = '=' || c = '!') = true → after.head? ≠ some '=' := by
      intro operator
      -- Both characters are symbols.
      rcases Bool.or_eq_true_iff.1 operator with equals | bang
      · exact absurd (congrArg some (of_decide_eq_true equals).symm) (nothing.symbol .assign)
      · exact absurd (congrArg some (of_decide_eq_true bang).symm) (nothing.symbol .bang)
    refine ⟨c, after, rfl, nothing.blank, ?_⟩
    rw [lexeme_of_single nothing.word nothing.digit nothing.quote lone,
      Symbol.ofChar?_eq_none_iff.2 nothing.symbol]
    rfl

/-- However a text is cut, it is read as the tokens of the pieces. -/
theorem Cut.tokens_eq {before s : List Char} {ts : List Token} (cut : Cut before ts s) :
    tokens s = ts := by
  induction cut with
  | last blanks => exact tokens_of_blank (List.dropWhile_eq_nil_iff.2 blanks)
  | @token before w x rest t ts blanks piece _ ih =>
    rcases piece.read with ⟨c, s, start, notBlank, read⟩
    have stays : (c :: s).dropWhile isBlank = c :: s :=
      List.dropWhile_cons_of_neg (by simp [notBlank])
    calc tokens (w ++ x ++ rest)
      _ = tokens (c :: s) := by rw [List.append_assoc, tokens_append_of_blank blanks, start]
      _ = t :: tokens rest := by rw [tokens_of_lexeme stays, read]
      _ = t :: ts := by rw [ih]

/-! ## What is read is a piece -/

/-- No run of letters and no run of digits goes over from the end of `before` to the start of `s`. -/
structure Parted (before s : List Char) : Prop where
  word : ∀ c ∈ before.getLast?, ∀ d ∈ s.head?, isWordChar d = true → isWordChar c = false
  digit : ∀ c ∈ before.getLast?, ∀ d ∈ s.head?, d.isDigit = true → c.isDigit = false

namespace Parted

variable {before w x s : List Char} {c : Char}

theorem nil_left (s : List Char) : Parted [] s :=
  ⟨nofun, nofun⟩

theorem nil_right (before : List Char) : Parted before [] :=
  ⟨fun _ _ => nofun, fun _ _ => nofun⟩

/-- It depends on the last character that stands in front of the text. -/
theorem of_last (word : isWordChar c = false) (digit : c.isDigit = false)
    (last : x.getLast? = some c) (s : List Char) : Parted x s := by
  constructor
  · intro d here _ _ _
    rw [last] at here
    exact Option.some.inj here ▸ word
  · intro d here _ _ _
    rw [last] at here
    exact Option.some.inj here ▸ digit

theorem behind (nonempty : x ≠ []) (parted : Parted x s) (before : List Char) :
    Parted (before ++ x) s := by
  have last : (before ++ x).getLast? = x.getLast? := by
    rw [List.getLast?_append, List.getLast?_eq_some_getLast nonempty]
    rfl
  constructor
  · rw [last]
    exact parted.word
  · rw [last]
    exact parted.digit

/-- No run goes over blanks, if there are any. -/
theorem behind_blanks (blanks : ∀ c ∈ w, isBlank c = true) (parted : Parted before (w ++ s)) :
    Parted (before ++ w) s := by
  rcases last : w.getLast? with _ | c
  · rw [List.getLast?_eq_none_iff.1 last, List.nil_append] at parted
    rw [List.getLast?_eq_none_iff.1 last, List.append_nil]
    exact parted
  · have blank : isBlank c = true := blanks c (List.mem_of_getLast? last)
    have word : isWordChar c = false := Bool.eq_false_iff.2 fun word => by
      simp [not_isBlank_of_word word] at blank
    have digit : c.isDigit = false := Bool.eq_false_iff.2 fun digit => by
      simp [not_isBlank_of_digit digit] at blank
    have nonempty : w ≠ [] := by
      rintro rfl
      cases last
    exact (of_last word digit last s).behind nonempty before

end Parted

/-- A character of a class and the run behind it. -/
theorem MaximalRun.of_takeWhile {p : Char → Bool} {before s : List Char} {c : Char} (first : p c = true)
    (front : ∀ d ∈ before.getLast?, p d = false) :
    MaximalRun p before (c :: s.takeWhile p) (s.dropWhile p) where
  nonempty := List.cons_ne_nil _ _
  inside := List.forall_mem_cons.2 ⟨first, fun _ here => List.mem_takeWhile_imp here⟩
  front := front
  behind := by
    intro d here
    have stops := List.head?_dropWhile_not p s
    rw [Option.mem_def.1 here] at stops
    exact stops

/-- The last character of a run belongs to its class. -/
theorem MaximalRun.last {p : Char → Bool} {before x after : List Char}
    (run : MaximalRun p before x after) : ∀ c ∈ x.getLast?, p c = true :=
  fun c here => run.inside c (List.mem_of_getLast? here)

/-- The piece that is read, and that no run goes on behind it. -/
structure ReadAs (before : List Char) (t : Token) (x after : List Char) : Prop where
  piece : Lexeme before t x after
  nonempty : x ≠ []
  parted : Parted x after

theorem MaximalRun.word_parted {before x after : List Char}
    (run : MaximalRun isWordChar before x after) : Parted x after := by
  constructor
  · intro c _ d here word
    simp [run.behind d here] at word
  · intro c here d _ _
    refine Bool.eq_false_iff.2 fun digit => ?_
    have word := run.last c here
    simp [Spells.isWordChar_of_isDigit digit] at word

theorem MaximalRun.digit_parted {before x after : List Char}
    (run : MaximalRun Char.isDigit before x after) : Parted x after := by
  constructor
  · intro c here d _ _
    exact Spells.isWordChar_of_isDigit (run.last c here)
  · intro c _ d here digit
    simp [run.behind d here] at digit

/-- A word is the keyword that has this text, or a name if there is none. -/
theorem lexeme_word_piece {before s : List Char} {c : Char} (word : isWordChar c = true)
    (front : ∀ d ∈ before.getLast?, isWordChar d = false) :
    ReadAs before (Token.ofWord (String.ofList (c :: s.takeWhile isWordChar)))
      (c :: s.takeWhile isWordChar) (s.dropWhile isWordChar) := by
  have run : MaximalRun isWordChar before _ _ := .of_takeWhile (s := s) word front
  refine ⟨?_, run.nonempty, run.word_parted⟩
  unfold Token.ofWord
  rcases reserved : Keyword.ofWord? (String.ofList (c :: s.takeWhile isWordChar)) with _ | k
  · have free (k : Keyword) : k.text ≠ String.ofList (c :: s.takeWhile isWordChar) := fun same =>
      List.find?_eq_none.1 reserved k k.mem_all (decide_eq_true same)
    have piece : Lexeme before (.ident (String.ofList (c :: s.takeWhile isWordChar))) _
        (s.dropWhile isWordChar) :=
      .ident (by rwa [String.toList_ofList]) free
    rwa [String.toList_ofList] at piece
  · have spelled : k.text = String.ofList (c :: s.takeWhile isWordChar) := by
      simpa using List.find?_some reserved
    have letters : k.text.toList = c :: s.takeWhile isWordChar := by
      rw [spelled, String.toList_ofList]
    rw [← letters] at run ⊢
    exact .keyword run

theorem lexeme_digit_piece {before s : List Char} {c : Char} (digit : c.isDigit = true)
    (front : ∀ d ∈ before.getLast?, d.isDigit = false) :
    ReadAs before (.int (String.ofList (c :: s.takeWhile Char.isDigit)))
      (c :: s.takeWhile Char.isDigit) (s.dropWhile Char.isDigit) := by
  have run : MaximalRun Char.isDigit before _ _ := .of_takeWhile (s := s) digit front
  refine ⟨?_, run.nonempty, run.digit_parted⟩
  have piece : Lexeme before (.int (String.ofList (c :: s.takeWhile Char.isDigit))) _
      (s.dropWhile Char.isDigit) :=
    .int (by rwa [String.toList_ofList])
  rwa [String.toList_ofList] at piece

/-- A string goes to the next quote, or to the end if there is none. -/
theorem lexeme_quote_piece (before s : List Char) :
    ∃ x, x ++ (lexeme '"' s).2 = '"' :: s ∧ ReadAs before (lexeme '"' s).1 x (lexeme '"' s).2 := by
  have noQuote : '"' ∉ s.takeWhile (· ≠ '"') := fun quote => by
    simpa using List.mem_takeWhile_imp quote
  have split : s.takeWhile (· ≠ '"') ++ s.dropWhile (· ≠ '"') = s :=
    List.takeWhile_append_dropWhile
  rw [lexeme_quote]
  rcases rest : s.dropWhile (· ≠ '"') with _ | ⟨d, after⟩
  · rw [rest, List.append_nil] at split
    refine ⟨'"' :: s, by simp, ?_, List.cons_ne_nil _ _, .nil_right _⟩
    have piece : Lexeme before (.str (String.ofList (s.takeWhile (· ≠ '"')))) _ [] :=
      .openStr (by rwa [String.toList_ofList])
    rw [String.toList_ofList] at piece
    rw [split] at piece ⊢
    exact piece
  · -- What stops a run of characters that are no quotes is a quote.
    have quote : d = '"' := by
      have stops := List.head?_dropWhile_not (· ≠ '"') s
      rw [rest] at stops
      simpa using stops
    subst quote
    rw [rest] at split
    refine ⟨'"' :: s.takeWhile (· ≠ '"') ++ ['"'], by simpa using split, ?_, by simp, ?_⟩
    · have piece : Lexeme before (.str (String.ofList (s.takeWhile (· ≠ '"')))) _ after :=
        .str (by rwa [String.toList_ofList])
      rwa [String.toList_ofList] at piece
    · exact .of_last rfl rfl List.getLast?_concat after

theorem lexeme_single_piece {before s : List Char} {c : Char} (blank : isBlank c = false)
    (word : isWordChar c = false) (digit : c.isDigit = false) (quote : c ≠ '"')
    (single : (c = '=' || c = '!') = true → s.head? ≠ some '=') :
    ReadAs before ((Symbol.ofChar? c).elim (.illegal c) .symbol) [c] s := by
  have parted : Parted [c] s := .of_last word digit rfl s
  rcases spelled : Symbol.ofChar? c with _ | u
  · exact ⟨.illegal ⟨blank, word, digit, quote, Symbol.ofChar?_eq_none_iff.1 spelled⟩,
      List.cons_ne_nil _ _, parted⟩
  · have text : u.text.toList = [c] := by simpa using List.find?_some spelled
    have alone : u = .assign ∨ u = .bang → s.head? ≠ some '=' := by
      rintro (rfl | rfl)
      · cases text
        exact single rfl
      · cases text
        exact single rfl
    have piece : Lexeme before (.symbol u) u.text.toList s := .symbol alone
    rw [text] at piece
    exact ⟨piece, List.cons_ne_nil _ _, parted⟩

/-- What is read off the front of a text is a piece of it. -/
theorem lexeme_piece {before s : List Char} {c : Char} (blank : isBlank c = false)
    (parted : Parted before (c :: s)) :
    ∃ x, x ++ (lexeme c s).2 = c :: s ∧ ReadAs before (lexeme c s).1 x (lexeme c s).2 := by
  rcases lexeme_cases c s with
    word | ⟨word, digit⟩ | rfl | ⟨rest, rfl | rfl, rfl⟩ | ⟨word, digit, quote, single⟩
  · have front : ∀ d ∈ before.getLast?, isWordChar d = false := fun d here =>
      parted.word d here c rfl word
    rw [lexeme_of_word word]
    exact ⟨_, by simp, lexeme_word_piece word front⟩
  · have front : ∀ d ∈ before.getLast?, d.isDigit = false := fun d here =>
      parted.digit d here c rfl digit
    rw [lexeme_of_digit word digit]
    exact ⟨_, by simp, lexeme_digit_piece digit front⟩
  · exact lexeme_quote_piece before s
  · exact ⟨['=', '='], rfl, .symbol nofun, by simp, .of_last rfl rfl rfl rest⟩
  · exact ⟨['!', '='], rfl, .symbol nofun, by simp, .of_last rfl rfl rfl rest⟩
  · rw [lexeme_of_single word digit quote single]
    exact ⟨[c], rfl, lexeme_single_piece blank word digit quote single⟩

/-- The tokens that are read cut the text, wherever it stands. -/
theorem Cut.of_parted {before s : List Char} (parted : Parted before s) : Cut before (tokens s) s := by
  induction n : s.length using Nat.strongRecOn generalizing before s with
  | ind n ih =>
    subst n
    have blanks : ∀ c ∈ s.takeWhile isBlank, isBlank c = true := fun _ => List.mem_takeWhile_imp
    have split := List.takeWhile_append_dropWhile (p := isBlank) (l := s)
    rcases start : s.dropWhile isBlank with _ | ⟨c, rest⟩
    · rw [tokens_of_blank start]
      exact .last (List.dropWhile_eq_nil_iff.1 start)
    · have notBlank : isBlank c = false := by
        have stops := List.head?_dropWhile_not isBlank s
        rwa [start] at stops
      rw [start] at split
      -- One piece off the front, and behind it the text is cut by what is read there.
      have parted' : Parted (before ++ s.takeWhile isBlank) (c :: rest) :=
        .behind_blanks blanks (split.symm ▸ parted)
      rcases lexeme_piece notBlank parted' with ⟨x, whole, read⟩
      have others : Cut (before ++ s.takeWhile isBlank ++ x) (tokens (lexeme c rest).2)
          (lexeme c rest).2 :=
        ih _ (length_lexeme_lt start) (read.parted.behind read.nonempty _) rfl
      have cut := Cut.token blanks read.piece others
      rwa [List.append_assoc, whole, split, ← tokens_of_lexeme start] at cut

/-! ## Every text -/

/-- Readings give the tokens and then the end of the input, again and again. -/
theorem readings_eq (n : Nat) (s : List Char) :
    readings n s = ((tokens s).map some ++ List.replicate n none).take n := by
  induction n generalizing s with
  | zero => rfl
  | succ n ih =>
    rcases start : s.dropWhile isBlank with _ | ⟨c, rest⟩
    · have ended : next? s = none := by simp [next?, start]
      rw [readings, ended, tokens_of_blank start]
      dsimp only
      rw [ih [], tokens_of_blank rfl]
      simp [List.replicate_succ]
    · have first : next? s = some (lexeme c rest) := by simp [next?, start]
      rw [readings, first, tokens_of_lexeme start]
      dsimp only
      rw [ih]
      simp [List.take_append, List.replicate_succ']

/-- The tokens of a text are the only ones that it can be cut into, and each reading behind the last of
them finds the end of the input. -/
theorem tokens_exact (s : List Char) :
    (∀ ts, Cut [] ts s ↔ ts = tokens s) ∧
    ∀ n, readings n s = ((tokens s).map some ++ List.replicate n none).take n := by
  refine ⟨fun ts => ⟨fun cut => cut.tokens_eq.symm, ?_⟩, fun n => readings_eq n s⟩
  rintro rfl
  exact .of_parted (.nil_left s)

end Script
