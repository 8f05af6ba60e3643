import Mathlib.Data.List.Basic
import Script.Proofs.Token.Spells

/-!
# Strings and braces

The marks of a program are its strings and its braces, in the order in which they are printed. A brace
knows what it opens or closes, a block or a hash. A text shows its marks as tokens, and there the two
sorts of braces look alike.

The characters of a text that are no quotes and no braces can be passed over one by one when its marks
are read, also where several of them are one token.
-/

namespace Script

/-! ## The marks of a program -/

inductive Mark
  | literal (text : String)
  | openBlock
  | closeBlock
  | openHash
  | closeHash
  deriving DecidableEq, Repr

/-- How a mark is read. -/
def Mark.token : Mark → Token
  | .literal text => .str text
  | .openBlock | .openHash => .symbol .openBrace
  | .closeBlock | .closeHash => .symbol .closeBrace

/-- The text of a string. -/
def Mark.literal? : Mark → Option String
  | .literal text => some text
  | _ => none

/-- The marks of a block with what it holds. -/
def inBlock (marks : List Mark) : List Mark :=
  .openBlock :: marks ++ [.closeBlock]

mutual

/-- The strings and the braces of the expression, in print order. -/
def Expr.marks : Expr → List Mark
  | .name _ | .int _ | .bool _ => []
  | .str text => [.literal text]
  | .unary _ a => a.marks
  | .binary _ a b => a.marks ++ b.marks
  | .cond test yes none => test.marks ++ inBlock (blockMarks yes)
  | .cond test yes (some no) => test.marks ++ inBlock (blockMarks yes) ++ inBlock (blockMarks no)
  | .fn _ body => inBlock (blockMarks body)
  | .array es => listMarks es
  | .index a i => a.marks ++ i.marks
  | .hash ps => .openHash :: pairMarks ps ++ [.closeHash]
  | .call f args => f.marks ++ listMarks args

def Statement.marks : Statement → List Mark
  | .bind _ value | .leave value | .expr value => value.marks

def blockMarks : Block → List Mark
  | [] => []
  | s :: rest => s.marks ++ blockMarks rest

def listMarks : List Expr → List Mark
  | [] => []
  | e :: rest => e.marks ++ listMarks rest

def pairMarks : List (Expr × Expr) → List Mark
  | [] => []
  | (key, value) :: rest => key.marks ++ value.marks ++ pairMarks rest

end

/-- The strings and the braces of the program, in print order. -/
def Program.marks (program : Program) : List Mark :=
  blockMarks program

/-- The strings of the program, in print order. -/
def Program.literals (program : Program) : List String :=
  program.marks.filterMap Mark.literal?

theorem blockMarks_eq_flatMap (block : Block) : blockMarks block = block.flatMap Statement.marks := by
  induction block with
  | nil => rfl
  | cons s rest ih => simp [blockMarks, ih]

theorem listMarks_eq_flatMap (es : List Expr) : listMarks es = es.flatMap Expr.marks := by
  induction es with
  | nil => rfl
  | cons e rest ih => simp [listMarks, ih]

theorem pairMarks_eq_flatMap (ps : List (Expr × Expr)) :
    pairMarks ps = ps.flatMap fun p => p.1.marks ++ p.2.marks := by
  induction ps with
  | nil => rfl
  | cons p rest ih => simp [pairMarks, ih]

/-! ## The marks of a text -/

/-- Is the token a string or a brace? -/
def Token.isMark : Token → Bool
  | .str _ | .symbol .openBrace | .symbol .closeBrace => true
  | _ => false

/-- The text of a string. -/
def Token.str? : Token → Option String
  | .str text => some text
  | _ => none

/-- The strings and the braces that are read in the text. -/
def marksIn (s : List Char) : List Token :=
  (tokens s).filter Token.isMark

@[simp]
theorem marksIn_nil : marksIn [] = [] := by
  rw [marksIn, tokens_of_blank rfl, List.filter_nil]

/-- A text that shows the marks shows their strings. -/
theorem strings_of_marksIn {s : List Char} {marks : List Mark} (h : marksIn s = marks.map Mark.token) :
    (tokens s).filterMap Token.str? = marks.filterMap Mark.literal? := by
  -- What is no mark is no string either, so nothing is lost by leaving it out first.
  have left : (tokens s).filterMap Token.str? = (marksIn s).filterMap Token.str? := by
    rw [marksIn, List.filterMap_filter]
    refine List.filterMap_congr fun t _ => ?_
    rcases t with _ | _ | _ | _ | symbol | _
    case symbol => cases symbol <;> rfl
    all_goals rfl
  rw [left, h, List.filterMap_map]
  refine List.filterMap_congr fun m _ => ?_
  cases m <;> rfl

/-! ### Characters that show nothing -/

/-- Does the character start no mark? -/
def isUnmarked (c : Char) : Bool :=
  c ∉ ['"', '\x7b', '\x7d']

/-- One token off the front of a text. -/
theorem marksIn_of_lexeme {c : Char} (blank : isBlank c = false) {s rest : List Char} {t : Token}
    (h : lexeme c s = (t, rest)) :
    marksIn (c :: s) = if t.isMark then t :: marksIn rest else marksIn rest := by
  have stays : (c :: s).dropWhile isBlank = c :: s :=
    List.dropWhile_cons_of_neg (Bool.eq_false_iff.1 blank)
  rw [marksIn, tokens_of_lexeme stays, h, List.filter_cons]
  rfl

theorem marksIn_of_word {c : Char} (h : isWordChar c = true) (s : List Char) :
    marksIn (c :: s) = marksIn (s.dropWhile isWordChar) := by
  rw [marksIn_of_lexeme (not_isBlank_of_word h) (lexeme_of_word h s), if_neg]
  unfold Token.ofWord
  split <;> simp [Token.isMark]

theorem marksIn_of_digit {c : Char} (h : c.isDigit = true) (s : List Char) :
    marksIn (c :: s) = marksIn (s.dropWhile Char.isDigit) := by
  have word := Spells.isWordChar_of_isDigit h
  rw [marksIn_of_lexeme (not_isBlank_of_digit h) (lexeme_of_digit word h s), if_neg]
  simp [Token.isMark]

/-- Part of a run shows no more than the whole run. -/
theorem marksIn_dropWhile {p : Char → Bool}
    (h : ∀ c s, p c = true → marksIn (c :: s) = marksIn (s.dropWhile p)) (s : List Char) :
    marksIn (s.dropWhile p) = marksIn s := by
  cases s with
  | nil => rfl
  | cons a s =>
    by_cases run : p a = true
    · rw [List.dropWhile_cons_of_pos run, h a s run]
    · rw [List.dropWhile_cons_of_neg run]

/-- A character on its own is a brace only if it looks like one. -/
theorem isMark_ofChar {c : Char} (h : isUnmarked c = true) :
    ((Symbol.ofChar? c).elim (.illegal c) .symbol : Token).isMark = false := by
  rcases read : Symbol.ofChar? c with _ | symbol
  · rfl
  · have spelled : symbol.text.toList = [c] := by simpa using List.find?_some read
    cases symbol
    case openBrace =>
      cases List.singleton_inj.1 spelled
      exact absurd h (by decide)
    case closeBrace =>
      cases List.singleton_inj.1 spelled
      exact absurd h (by decide)
    all_goals rfl

/-- A character that starts no mark can be passed over, whatever token it is part of. -/
theorem marksIn_cons {c : Char} (h : isUnmarked c = true) (s : List Char) :
    marksIn (c :: s) = marksIn s := by
  induction size : s.length using Nat.strongRecOn generalizing c s with
  | ind n ih =>
    by_cases blank : isBlank c = true
    · have skipped := tokens_append_of_blank (List.forall_mem_singleton.2 blank) s
      exact congrArg (List.filter Token.isMark) skipped
    have notBlank := Bool.eq_false_iff.2 blank
    rcases lexeme_cases c s with
      word | ⟨-, digit⟩ | rfl | ⟨rest, first, rfl⟩ | ⟨word, digit, quote, single⟩
    · rw [marksIn_of_word word, marksIn_dropWhile fun _ _ h => marksIn_of_word h _]
    · rw [marksIn_of_digit digit, marksIn_dropWhile fun _ _ h => marksIn_of_digit h _]
    · exact absurd h (by decide)
    -- The second character of the operator could start one itself, so it takes another round.
    · have other : marksIn ('=' :: rest) = marksIn rest :=
        ih rest.length (by simp [← size]) (by decide) rest rfl
      rw [other]
      rcases first with rfl | rfl
      · exact marksIn_of_lexeme notBlank (lexeme_equal rest)
      · exact marksIn_of_lexeme notBlank (lexeme_notEqual rest)
    · rw [marksIn_of_lexeme notBlank (lexeme_of_single word digit quote single), isMark_ofChar h]
      rfl

theorem marksIn_append {u : List Char} (h : ∀ c ∈ u, isUnmarked c = true) (s : List Char) :
    marksIn (u ++ s) = marksIn s := by
  induction u with
  | nil => rfl
  | cons c u ih =>
    rcases List.forall_mem_cons.1 h with ⟨first, others⟩
    rw [List.cons_append, marksIn_cons first, ih others]

/-! ### The marks themselves -/

theorem marksIn_literal {text : String} (h : '"' ∉ text.toList) (s : List Char) :
    marksIn ('"' :: text.toList ++ '"' :: s) = .str text :: marksIn s := by
  have read : lexeme '"' (text.toList ++ '"' :: s) = (.str text, s) := by
    rw [lexeme_string h, String.ofList_toList]
  exact marksIn_of_lexeme rfl read

theorem marksIn_openBrace (s : List Char) :
    marksIn ('\x7b' :: s) = .symbol .openBrace :: marksIn s :=
  marksIn_of_lexeme rfl rfl

theorem marksIn_closeBrace (s : List Char) :
    marksIn ('\x7d' :: s) = .symbol .closeBrace :: marksIn s :=
  marksIn_of_lexeme rfl rfl

end Script
