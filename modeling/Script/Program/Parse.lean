import Script.Integer
import Script.Token.Scan
import Script.Program.Precedence
import Script.Program.Reply

/-!
# Reading programs

A statement is told by its first token, an expression is read operand by operand: after each operand
it goes on as long as the next token binds more strongly than the strength asked for. A statement
that does not fit is recorded and left out, one token is skipped, and reading goes on there, so one
pass finds the errors of the whole text.

The readers named `…Step` are defined together and carry the bound that makes them end. The
definitions after them (`expression`, `statement`, `block`, …) are their replies, and the equations
in `Script.Program.Parse.Equations` say in full what each of them reads.
-/

namespace Script
namespace Parse

/-! ## Single tokens -/

/-- Moves on to the next token, which has to be of the given kind. -/
def expect (kind : TokenKind) (ts : List Token) : Step ts Unit :=
  if headKind ts.tail = kind then .done () ts.tail (by simp)
  else .fail (.unexpected kind (headKind ts.tail))

/-- Moves on to the next token, which has to be a name. -/
def expectName (ts : List Token) : Step ts String :=
  match ts.tail with
  | .ident x :: _ => .done x ts.tail (by simp)
  | us => .fail (.unexpected .ident (headKind us))

/-- Moves on over a semicolon, if one comes next. -/
def skipSemicolon (ts : List Token) : List Token :=
  if headKind ts.tail = .symbol .semicolon then ts.tail else ts

theorem length_skipSemicolon_le (ts : List Token) : (skipSemicolon ts).length ≤ ts.length := by
  unfold skipSemicolon
  split <;> simp

theorem length_le_cons_cons (t u : Token) (rest : List Token) :
    rest.length ≤ (t :: u :: rest).length :=
  Nat.le_add_right rest.length 2

/-! ## Parameters -/

/-- The parameters after the first one, each behind a comma. -/
def moreParamsStep (ts : List Token) : Step ts (List String) :=
  match ts with
  | t :: u :: rest =>
    if u.kind = .symbol .comma then
      ((expectName (u :: rest)).bind fun x us _ =>
        (moreParamsStep us).map (x :: ·)).within (by simp)
    else .here []
  | ts => .here []
termination_by ts.length
decreasing_by simp_all only [List.length_cons]; omega

/-- The parameters of a function from its opening parenthesis to its closing one. -/
def paramsStep (ts : List Token) : Step ts (List String) :=
  if headKind ts.tail = .symbol .closeParen then .done [] ts.tail (by simp)
  else
    (expectName ts).bind fun x us _ =>
      (moreParamsStep us).bind fun xs vs _ =>
        (expect (.symbol .closeParen) vs).map fun _ => x :: xs

/-! ## Expressions and statements -/

mutual

/-- An expression whose continuations bind more strongly than `p`. -/
def expressionStep (p : Precedence) (ts : List Token) : Step ts Expr :=
  (operandStep ts).bind fun left us _ => continuedStep p left us
termination_by 5 * ts.length + 2

/-- An operand: the part of an expression before any continuation. -/
def operandStep (ts : List Token) : Step ts Expr :=
  match ts with
  | [] => .fail (.noOperand .eof)
  | .ident x :: rest => .here (.name x)
  | .int digits :: rest =>
    match Integer.ofLiteral? digits.toList with
    | some n => .here (.int n)
    | none => .fail (.outOfRange digits)
  | .str text :: rest => .here (.str text)
  | .keyword .trueWord :: rest => .here (.bool true)
  | .keyword .falseWord :: rest => .here (.bool false)
  | .symbol .bang :: rest =>
    ((expressionStep .unary rest).map (.unary .not)).within (by simp)
  | .symbol .minus :: rest =>
    ((expressionStep .unary rest).map (.unary .negate)).within (by simp)
  | .symbol .openParen :: rest =>
    ((expressionStep .lowest rest).bind fun e us _ =>
      (expect (.symbol .closeParen) us).map fun _ => e).within (by simp)
  | .symbol .openBracket :: rest =>
    ((elementsStep .closeBracket rest).map .array).within (by simp)
  | .symbol .openBrace :: rest => ((pairsStep rest).map .hash).within (by simp)
  | .keyword .fnWord :: rest =>
    (expect (.symbol .openParen) (.keyword .fnWord :: rest)).bind fun _ us _ =>
      (paramsStep us).bind fun params vs _ =>
        (expect (.symbol .openBrace) vs).bind fun _ ws _ =>
          ((blockStep ws.tail).map (.fn params)).within (by simp)
  | .keyword .ifWord :: rest =>
    (expect (.symbol .openParen) (.keyword .ifWord :: rest)).bind fun _ us _ =>
      ((expressionStep .lowest us.tail).bind fun test vs _ =>
        (expect (.symbol .closeParen) vs).bind fun _ ws _ =>
          (expect (.symbol .openBrace) ws).bind fun _ xs _ =>
            ((blockStep xs.tail).bind fun yes ys _ => alternativeStep test yes ys).within
              (by simp)).within (by simp)
  | t :: rest => .fail (.noOperand t.kind)
termination_by 5 * ts.length + 1
decreasing_by all_goals (simp only [List.length_cons, List.length_tail] at *; omega)

/-- The second branch of a condition, if there is one. The cursor is on the last token of the first
branch. -/
def alternativeStep (test : Expr) (yes : Block) (ts : List Token) : Step ts Expr :=
  match ts with
  | t :: u :: rest =>
    if u.kind = .keyword .elseWord then
      ((expect (.symbol .openBrace) (u :: rest)).bind fun _ us _ =>
        ((blockStep us.tail).map fun no => .cond test yes (some no)).within (by simp)).within
          (by simp)
    else .here (.cond test yes none)
  | ts => .here (.cond test yes none)
termination_by 5 * ts.length
decreasing_by all_goals (simp only [List.length_cons, List.length_tail] at *; omega)

/-- Goes on with an expression as long as what comes next binds more strongly than `p`. The cursor
is on the last token of `left`. -/
def continuedStep (p : Precedence) (left : Expr) (ts : List Token) : Step ts Expr :=
  match ts with
  | t :: u :: rest =>
    match u.kind.continuation? with
    | some k =>
      if p < k.precedence then
        ((resumedStep k left rest).bind fun e us _ => continuedStep p e us).within
          (length_le_cons_cons t u rest)
      else .here left
    | none => .here left
  | ts => .here left
termination_by 5 * ts.length

/-- One continuation of `left`, from behind the token that opens it. -/
def resumedStep (k : Continuation) (left : Expr) (ts : List Token) : Step ts Expr :=
  match k with
  | .operator op => (expressionStep op.precedence ts).map (.binary op left)
  | .call => (elementsStep .closeParen ts).map (.call left)
  | .index =>
    (expressionStep .lowest ts).bind fun i us _ =>
      (expect (.symbol .closeBracket) us).map fun _ => .index left i
termination_by 5 * ts.length + 4

/-- Expressions with commas between them, from behind the opening bracket to the closing one. -/
def elementsStep (close : Symbol) (ts : List Token) : Step ts (List Expr) :=
  if headKind ts = .symbol close then .here []
  else
    (expressionStep .lowest ts).bind fun e us _ =>
      (moreElementsStep us).bind fun es vs _ =>
        (expect (.symbol close) vs).map fun _ => e :: es
termination_by 5 * ts.length + 3

/-- The expressions after the first one, each behind a comma. -/
def moreElementsStep (ts : List Token) : Step ts (List Expr) :=
  match ts with
  | t :: u :: rest =>
    if u.kind = .symbol .comma then
      ((expressionStep .lowest rest).bind fun e us _ =>
        (moreElementsStep us).map (e :: ·)).within (by simp only [List.length_cons]; omega)
    else .here []
  | ts => .here []
termination_by 5 * ts.length

/-- The pairs of a hash, from behind the opening brace or a comma to the closing brace. -/
def pairsStep (ts : List Token) : Step ts (List (Expr × Expr)) :=
  match ts with
  | [] => .fail (.noOperand .eof)
  | t :: rest =>
    if t.kind = .symbol .closeBrace then .here []
    else
      (expressionStep .lowest (t :: rest)).bind fun key us _ =>
        (expect (.symbol .colon) us).bind fun _ vs _ =>
          ((expressionStep .lowest vs.tail).bind fun value ws _ =>
            if headKind ws.tail = .symbol .closeBrace then
              .done [(key, value)] ws.tail (by simp)
            else
              (expect (.symbol .comma) ws).bind fun _ xs _ =>
                ((pairsStep xs.tail).map ((key, value) :: ·)).within (by simp)).within (by simp)
termination_by 5 * ts.length + 3
decreasing_by all_goals (simp only [List.length_cons, List.length_tail] at *; omega)

/-- The statements of a block, from behind its opening brace to its closing brace, or to the end of
the input if there is none. A statement that does not fit is recorded and left out. -/
def blockStep (ts : List Token) : Step ts Block :=
  match ts with
  | [] => .here []
  | t :: rest =>
    if t.kind = .symbol .closeBrace then .here []
    else (statementStep (t :: rest)).collect fun us _ => blockStep us
termination_by 5 * ts.length + 4
decreasing_by all_goals (simp only [List.length_cons] at *; omega)

/-- One statement, with the semicolon behind it if there is one. -/
def statementStep (ts : List Token) : Step ts Statement :=
  match ts with
  | .keyword .letWord :: rest =>
    (expectName (.keyword .letWord :: rest)).bind fun x us _ =>
      (expect (.symbol .assign) us).bind fun _ vs _ =>
        ((expressionStep .lowest vs.tail).bind fun value ws _ =>
          .done (.bind x value) (skipSemicolon ws) (length_skipSemicolon_le ws)).within (by simp)
  | .keyword .returnWord :: rest =>
    ((expressionStep .lowest rest).bind fun value us _ =>
      .done (.leave value) (skipSemicolon us) (length_skipSemicolon_le us)).within (by simp)
  | ts =>
    (expressionStep .lowest ts).bind fun value us _ =>
      .done (.expr value) (skipSemicolon us) (length_skipSemicolon_le us)
termination_by 5 * ts.length + 3
decreasing_by
  all_goals try simp only [List.length_cons, List.length_tail] at *
  all_goals omega

end

/-! ## Replies -/

/-- An expression whose continuations bind more strongly than `p`. -/
def expression (p : Precedence) (ts : List Token) : Reply Expr :=
  (expressionStep p ts).reply

/-- The part of an expression before any continuation. -/
def operand (ts : List Token) : Reply Expr :=
  (operandStep ts).reply

/-- Goes on with an expression as long as what comes next binds more strongly than `p`. -/
def continued (p : Precedence) (left : Expr) (ts : List Token) : Reply Expr :=
  (continuedStep p left ts).reply

/-- One continuation of `left`, from behind the token that opens it. -/
def resumed (k : Continuation) (left : Expr) (ts : List Token) : Reply Expr :=
  (resumedStep k left ts).reply

/-- Expressions with commas between them, from behind the opening bracket to the closing one. -/
def elements (close : Symbol) (ts : List Token) : Reply (List Expr) :=
  (elementsStep close ts).reply

/-- The expressions after the first one, each behind a comma. -/
def moreElements (ts : List Token) : Reply (List Expr) :=
  (moreElementsStep ts).reply

/-- The pairs of a hash, from behind the opening brace or a comma to the closing brace. -/
def pairs (ts : List Token) : Reply (List (Expr × Expr)) :=
  (pairsStep ts).reply

/-- The parameters of a function from its opening parenthesis to its closing one. -/
def params (ts : List Token) : Reply (List String) :=
  (paramsStep ts).reply

/-- The parameters after the first one, each behind a comma. -/
def moreParams (ts : List Token) : Reply (List String) :=
  (moreParamsStep ts).reply

/-- The second branch of a condition, if there is one. -/
def alternative (test : Expr) (yes : Block) (ts : List Token) : Reply Expr :=
  (alternativeStep test yes ts).reply

/-- The statements of a block, from behind its opening brace to its end. -/
def block (ts : List Token) : Reply Block :=
  (blockStep ts).reply

/-- One statement, with the semicolon behind it if there is one. -/
def statement (ts : List Token) : Reply Statement :=
  (statementStep ts).reply

/-- Moves on to the next token, which has to be of the given kind. -/
def next (kind : TokenKind) (ts : List Token) : Reply Unit :=
  (expect kind ts).reply

/-- Moves on to the next token, which has to be a name. -/
def nextName (ts : List Token) : Reply String :=
  (expectName ts).reply

theorem length_statement_le (ts : List Token) : (statement ts).cursor.length ≤ ts.length :=
  (statementStep ts).cursor_le

end Parse

/-! ## Programs -/

/-- What reading a whole text leaves: the statements that fit, and the errors in the order in which
they were found. -/
structure Draft where
  statements : Program
  errors : List Diagnostic

/-- Reads statements up to the end of the input. -/
def Draft.ofTokens (ts : List Token) : Draft :=
  match ts with
  | [] => ⟨[], []⟩
  | t :: rest =>
    let first := Parse.statement (t :: rest)
    let others := ofTokens first.cursor.tail
    ⟨first.built ++ others.statements, first.errors ++ others.errors⟩
termination_by ts.length
decreasing_by
  have le := Parse.length_statement_le (t :: rest)
  simp only [List.length_cons, List.length_tail] at *
  omega

/-- Reads a source text. -/
def Draft.ofText (source : String) : Draft :=
  ofTokens (tokens source.toList)

/-- A text is a program if all of it fits. -/
def Program.parse (source : String) : Except (List Diagnostic) Program :=
  let draft := Draft.ofText source
  if draft.errors.isEmpty then .ok draft.statements else .error draft.errors

end Script
