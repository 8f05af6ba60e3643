import Script.Program.Parse

/-!
# Reading by a machine

The readers once more, as a machine that moves a cursor over the tokens and keeps a list of errors.
Nothing here bounds how long it runs: its loops go round as long as the next token tells them to, and
behind the last token it finds the end of the input as often as it looks. So the readers are a partial
function, which gives nothing where the machine would run on for ever.
-/

namespace Script
namespace Parse

/-- The tokens from the current one on, and the errors recorded so far. -/
structure Progress where
  cursor : List Token
  errors : List Diagnostic

/-- A run of the machine may end with an error; what it has read and recorded stays. -/
abbrev Machine (α : Type) : Type :=
  ExceptT ParseError (StateT Progress Option) α

namespace Machine

/-! ## Single tokens -/

/-- The tokens from the current one on. -/
def current : Machine (List Token) := return (← get).cursor

/-- The kind of the token behind the current one. -/
def peek : Machine TokenKind := return headKind (← get).cursor.tail

/-- Moves on by one token. -/
def advance : Machine Unit := modify fun w => { w with cursor := w.cursor.tail }

/-- Adds an error that was met at the cursor. -/
def record (e : ParseError) : StateT Progress Option Unit :=
  modify fun w => { w with errors := w.errors ++ [e.locate w.cursor] }

/-- Moves on to the next token, which has to be of the given kind. -/
def expect (kind : TokenKind) : Machine Unit := do
  let found ← peek
  if found = kind then advance else throw (.unexpected kind found)

/-- Moves on to the next token, which has to be a name. -/
def expectName : Machine String := do
  match (← current).tail with
  | .ident x :: _ => do
    advance
    return x
  | us => throw (.unexpected .ident (headKind us))

/-- Moves on over a semicolon, if one comes next. -/
def skipSemicolon : Machine Unit := do
  if (← peek) = .symbol .semicolon then advance

/-! ## Readers -/

/-- The readers that go round, or that call one another. -/
inductive Reader
  /-- The parameters of a function, from the opening parenthesis on. -/
  | params
  /-- The parameters after the first one, each behind a comma. -/
  | moreParams
  /-- An expression whose continuations bind more strongly than `p`. -/
  | expression (p : Precedence)
  /-- The part of an expression before any continuation. -/
  | operand
  /-- Goes on with an expression as long as what comes next binds more strongly than `p`. -/
  | continued (p : Precedence) (left : Expr)
  /-- One continuation of `left`, from the token that opens it. -/
  | resumed (k : Continuation) (left : Expr)
  /-- Expressions with commas between them, from the opening bracket to the closing one. -/
  | elements (close : Symbol)
  /-- The expressions after the first one, each behind a comma. -/
  | moreElements
  /-- The pairs of a hash, from its opening brace, or from a comma or the last value on. -/
  | pairs
  /-- The statements of a block, from its opening brace on. -/
  | block
  /-- Statements up to a token of one of the given kinds. One that fails is recorded, and reading goes
  on behind the token at the cursor. -/
  | statements (ends : List TokenKind)
  /-- One statement, with the semicolon behind it if there is one. -/
  | statement

namespace Reader

/-- What a reader gives. Only the loop over statements cannot fail. -/
@[reducible] def Result : Reader → Type
  | params | moreParams => Except ParseError (List String)
  | expression _ | operand | continued _ _ | resumed _ _ => Except ParseError Expr
  | elements _ | moreElements => Except ParseError (List Expr)
  | pairs => Except ParseError (List (Expr × Expr))
  | block => Except ParseError Block
  | statements _ => Block
  | statement => Except ParseError Statement

/-- What a reader does, in one function for all of them, since they call one another. -/
def run (reader : Reader) : StateT Progress Option reader.Result :=
  match reader with

  | params => (do
    if (← peek) = .symbol .closeParen then
      advance
      return []
    else
      let x ← expectName
      let xs ← moreParams |>.run
      expect (.symbol .closeParen)
      return x :: xs : Machine (List String))

  | moreParams => (do
    if (← peek) = .symbol .comma then
      advance
      let x ← expectName
      return x :: (← moreParams |>.run)
    else return [] : Machine (List String))

  | expression p => (do
    let left ← operand |>.run
    continued p left |>.run : Machine Expr)

  | operand => (do
    match ← current with
    | [] => throw (.noOperand .eof)
    | .ident x :: _ => return .name x
    | .int digits :: _ =>
      match Integer.ofLiteral? digits.toList with
      | some n => return .int n
      | none => throw (.outOfRange digits)
    | .str text :: _ => return .str text
    | .keyword .trueWord :: _ => return .bool true
    | .keyword .falseWord :: _ => return .bool false
    | .symbol .bang :: _ => do
      advance
      return .unary .not (← expression .unary |>.run)
    | .symbol .minus :: _ => do
      advance
      return .unary .negate (← expression .unary |>.run)
    | .symbol .openParen :: _ => do
      advance
      let e ← expression .lowest |>.run
      expect (.symbol .closeParen)
      return e
    | .symbol .openBracket :: _ => return .array (← elements .closeBracket |>.run)
    | .symbol .openBrace :: _ => return .hash (← pairs |>.run)
    | .keyword .fnWord :: _ => do
      expect (.symbol .openParen)
      let xs ← params |>.run
      expect (.symbol .openBrace)
      return .fn xs (← block |>.run)
    | .keyword .ifWord :: _ => do
      expect (.symbol .openParen)
      advance
      let test ← expression .lowest |>.run
      expect (.symbol .closeParen)
      expect (.symbol .openBrace)
      let yes ← block |>.run
      if (← peek) = .keyword .elseWord then
        advance
        expect (.symbol .openBrace)
        return .cond test yes (some (← block |>.run))
      else return .cond test yes none
    | t :: _ => throw (.noOperand t.kind) : Machine Expr)

  | continued p left => (do
    match (← peek).continuation? with
    | some k =>
      if p < k.precedence then
        advance
        let e ← resumed k left |>.run
        continued p e |>.run
      else return left
    | none => return left : Machine Expr)

  | resumed k left => (do
    match k with
    | .operator op =>
      advance
      return .binary op left (← expression op.precedence |>.run)
    | .call => return .call left (← elements .closeParen |>.run)
    | .index =>
      advance
      let i ← expression .lowest |>.run
      expect (.symbol .closeBracket)
      return .index left i : Machine Expr)

  | elements close => (do
    if (← peek) = .symbol close then
      advance
      return []
    else
      advance
      let e ← expression .lowest |>.run
      let es ← moreElements |>.run
      expect (.symbol close)
      return e :: es : Machine (List Expr))

  | moreElements => (do
    if (← peek) = .symbol .comma then
      advance
      advance
      let e ← expression .lowest |>.run
      return e :: (← moreElements |>.run)
    else return [] : Machine (List Expr))

  | pairs => (do
    if (← peek) = .symbol .closeBrace then
      expect (.symbol .closeBrace)
      return []
    else
      advance
      let key ← expression .lowest |>.run
      expect (.symbol .colon)
      advance
      let value ← expression .lowest |>.run
      if (← peek) = .symbol .closeBrace then
        return (key, value) :: (← pairs |>.run)
      else
        expect (.symbol .comma)
        return (key, value) :: (← pairs |>.run)
    : Machine (List (Expr × Expr)))

  | block => do
    let _ ← advance.run
    return .ok (← statements [.symbol .closeBrace, .eof] |>.run)

  | statements ends => do
    if headKind (← get).cursor ∈ ends then return []
    else
      match ← statement |>.run with
      | .ok one =>
        let _ ← advance.run
        return one :: (← statements ends |>.run)
      | .error e =>
        record e
        let _ ← advance.run
        statements ends |>.run

  | statement => (do
    match ← current with
    | .keyword .letWord :: _ => do
      let x ← expectName
      expect (.symbol .assign)
      advance
      let value ← expression .lowest |>.run
      skipSemicolon
      return .bind x value
    | .keyword .returnWord :: _ => do
      advance
      let value ← expression .lowest |>.run
      skipSemicolon
      return .leave value
    | _ => do
      let value ← expression .lowest |>.run
      skipSemicolon
      return .expr value : Machine Statement)
partial_fixpoint

end Reader

/-- The statements up to the end of the input. -/
def program : StateT Progress Option Program :=
  (Reader.statements [.eof]).run

end Machine
end Parse
end Script
