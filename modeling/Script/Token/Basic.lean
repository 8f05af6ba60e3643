/-!
# Tokens

A source text is a sequence of tokens: words, integers, strings, symbols, and characters that belong
to no token. `Token` carries the text that was read, `TokenKind` only what sort of token it is, with
one more kind for the end of the input.
-/

namespace Script

/-! ## Symbols and reserved words -/

inductive Symbol
  | assign
  | plus
  | minus
  | bang
  | star
  | slash
  | less
  | greater
  | equal
  | notEqual
  | comma
  | semicolon
  | colon
  | openParen
  | closeParen
  | openBrace
  | closeBrace
  | openBracket
  | closeBracket
  deriving DecidableEq, Repr

def Symbol.text : Symbol → String
  | .assign => "="
  | .plus => "+"
  | .minus => "-"
  | .bang => "!"
  | .star => "*"
  | .slash => "/"
  | .less => "<"
  | .greater => ">"
  | .equal => "=="
  | .notEqual => "!="
  | .comma => ","
  | .semicolon => ";"
  | .colon => ":"
  | .openParen => "("
  | .closeParen => ")"
  | .openBrace => "\x7b"
  | .closeBrace => "\x7d"
  | .openBracket => "["
  | .closeBracket => "]"

def Symbol.all : List Symbol :=
  [.assign, .plus, .minus, .bang, .star, .slash, .less, .greater, .equal, .notEqual, .comma,
    .semicolon, .colon, .openParen, .closeParen, .openBrace, .closeBrace, .openBracket,
    .closeBracket]

/-- The symbol that is written with the one character `c`. -/
def Symbol.ofChar? (c : Char) : Option Symbol :=
  all.find? fun s => s.text.toList = [c]

inductive Keyword
  | fnWord
  | letWord
  | trueWord
  | falseWord
  | ifWord
  | elseWord
  | returnWord
  deriving DecidableEq, Repr

def Keyword.text : Keyword → String
  | .fnWord => "fn"
  | .letWord => "let"
  | .trueWord => "true"
  | .falseWord => "false"
  | .ifWord => "if"
  | .elseWord => "else"
  | .returnWord => "return"

def Keyword.all : List Keyword :=
  [.fnWord, .letWord, .trueWord, .falseWord, .ifWord, .elseWord, .returnWord]

/-- The keyword a word is reserved for. -/
def Keyword.ofWord? (word : String) : Option Keyword :=
  all.find? fun k => k.text = word

/-! ## Tokens -/

inductive Token
  /-- A character that no token can start with. -/
  | illegal (c : Char)
  /-- A name. -/
  | ident (name : String)
  /-- A run of decimal digits. -/
  | int (digits : String)
  /-- A string, without its quotes. -/
  | str (text : String)
  | symbol (s : Symbol)
  | keyword (k : Keyword)
  deriving DecidableEq, Repr

/-- The text of a token; for a string, what stands between the quotes. -/
def Token.literal : Token → String
  | .illegal c => c.toString
  | .ident name => name
  | .int digits => digits
  | .str text => text
  | .symbol s => s.text
  | .keyword k => k.text

/-- A word is a keyword if it is reserved, and a name otherwise. -/
def Token.ofWord (word : String) : Token :=
  match Keyword.ofWord? word with
  | some k => .keyword k
  | none => .ident word

/-! ## Kinds -/

inductive TokenKind
  | illegal
  /-- The end of the input. -/
  | eof
  | ident
  | int
  | str
  | symbol (s : Symbol)
  | keyword (k : Keyword)
  deriving DecidableEq, Repr

def Token.kind : Token → TokenKind
  | .illegal _ => .illegal
  | .ident _ => .ident
  | .int _ => .int
  | .str _ => .str
  | .symbol s => .symbol s
  | .keyword k => .keyword k

def TokenKind.all : List TokenKind :=
  [.illegal, .eof, .ident, .int, .str] ++ Symbol.all.map .symbol ++ Keyword.all.map .keyword

/-- The name of a keyword's kind. -/
def Keyword.label : Keyword → String
  | .fnWord => "FUNCTION"
  | .letWord => "LET"
  | .trueWord => "TRUE"
  | .falseWord => "FALSE"
  | .ifWord => "IF"
  | .elseWord => "ELSE"
  | .returnWord => "RETURN"

/-- The name of a kind in messages. A symbol is named by itself. -/
def TokenKind.label : TokenKind → String
  | .illegal => "ILLEGAL"
  | .eof => "EOF"
  | .ident => "IDENT"
  | .int => "INT"
  | .str => "STRING"
  | .symbol s => s.text
  | .keyword k => k.label

/-- The kind with the given name. -/
def TokenKind.ofLabel? (label : String) : Option TokenKind :=
  all.find? fun k => k.label = label

/-- The kind of the first token, or the end of the input where there is none. -/
def headKind : List Token → TokenKind
  | [] => .eof
  | t :: _ => t.kind

@[simp]
theorem headKind_nil : headKind [] = .eof := rfl

@[simp]
theorem headKind_cons (t : Token) (ts : List Token) : headKind (t :: ts) = t.kind := rfl

theorem Symbol.mem_all (s : Symbol) : s ∈ all := by
  cases s <;> decide

theorem Keyword.mem_all (k : Keyword) : k ∈ all := by
  cases k <;> decide

theorem Keyword.ofWord?_text (k : Keyword) : ofWord? k.text = some k := by
  cases k <;> decide

theorem Token.kind_ne_eof (t : Token) : t.kind ≠ .eof := by
  cases t <;> simp [kind]

end Script
