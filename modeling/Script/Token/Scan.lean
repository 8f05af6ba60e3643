import Script.Text.Blank
import Script.Token.Basic

/-!
# Reading tokens

`next? s` reads one token off the front of `s`; `tokens s` reads them all. Blanks between tokens are
skipped, and each token is the longest that starts where it starts: a word or a run of digits ends
only before a character of another class, and `==` and `!=` win over `=` and `!`. Nothing is an
error: a character that no token starts with is an illegal token of its own, and a string that is
never closed runs to the end.
-/

namespace Script

/-- The characters of words: ASCII letters and the underscore. -/
def isWordChar (c : Char) : Bool :=
  c.isAlpha || c = '_'

/-! ## One token -/

/-- The token that starts with the character `c`, which is no blank, when `s` follows it, and the
rest of `s` behind the token. -/
def lexeme (c : Char) (s : List Char) : Token × List Char :=
  if isWordChar c then
    (.ofWord (String.ofList (c :: s.takeWhile isWordChar)), s.dropWhile isWordChar)
  else if c.isDigit then
    (.int (String.ofList (c :: s.takeWhile Char.isDigit)), s.dropWhile Char.isDigit)
  else if c = '"' then
    (.str (String.ofList (s.takeWhile (· ≠ '"'))), (s.dropWhile (· ≠ '"')).drop 1)
  else
    match c, s with
    | '=', '=' :: rest => (.symbol .equal, rest)
    | '!', '=' :: rest => (.symbol .notEqual, rest)
    | _, _ =>
      match Symbol.ofChar? c with
      | some symbol => (.symbol symbol, s)
      | none => (.illegal c, s)

/-- The first token of `s` and what follows it, or nothing at the end of the input. -/
def next? (s : List Char) : Option (Token × List Char) :=
  match s.dropWhile isBlank with
  | [] => none
  | c :: rest => some (lexeme c rest)

/-! ## Reading makes progress -/

theorem length_dropWhile_le (p : Char → Bool) (s : List Char) :
    (s.dropWhile p).length ≤ s.length :=
  (List.dropWhile_sublist p).length_le

theorem length_lexeme_le (c : Char) (s : List Char) : (lexeme c s).2.length ≤ s.length := by
  unfold lexeme
  split
  · exact length_dropWhile_le _ _
  · split
    · exact length_dropWhile_le _ _
    · split
      · have := length_dropWhile_le (· ≠ '"') s
        simp only [List.length_drop]
        omega
      · split
        · simp
        · simp
        · split <;> simp

theorem length_lt_of_next? {s rest : List Char} {t : Token} (h : next? s = some (t, rest)) :
    rest.length < s.length := by
  unfold next? at h
  split at h
  case h_1 => simp at h
  case h_2 c r hs =>
    have skipped := length_dropWhile_le isBlank s
    have read := length_lexeme_le c r
    rw [hs, List.length_cons] at skipped
    rw [Option.some.injEq] at h
    rw [h] at read
    simp only at read
    omega

/-! ## All tokens -/

/-- The tokens of `s`, up to the end of the input. -/
def tokens (s : List Char) : List Token :=
  match _read : next? s with
  | none => []
  | some (t, rest) => t :: tokens rest
termination_by s.length
decreasing_by exact length_lt_of_next? _read

/-- The first `n` readings of `s`. Where the tokens are used up, every further reading finds the end
of the input. -/
def readings : Nat → List Char → List (Option Token)
  | 0, _ => []
  | n + 1, s =>
    match next? s with
    | none => none :: readings n []
    | some (t, rest) => some t :: readings n rest

end Script
