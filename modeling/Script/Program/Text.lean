import Script.Integer
import Script.Program.Basic

/-!
# The canonical text of a program

Every tree has one text: each operator stands with its operands in parentheses, each statement ends
in a semicolon, and each statement of a block stands on a line of its own, indented by one tab more
than the block. Line breaks inside strings are left alone.
-/

namespace Script

/-! ## Layout -/

/-- The items with a comma and a space between them. -/
def commaSeparated : List (List Char) → List Char :=
  List.intercalate [',', ' ']

/-- Puts a tab behind every line break that is outside a string. Whether the text starts inside one
is told by `quoted`, and every quote changes it. -/
def indent (quoted : Bool) : List Char → List Char
  | [] => []
  | c :: s =>
    if c = '"' then c :: indent (!quoted) s
    else if c = '\n' && !quoted then c :: '\t' :: indent quoted s
    else c :: indent quoted s

/-- The lines of a block, each indented, between braces. -/
def braced (lines : List (List Char)) : List Char :=
  ['\x7b', '\n'] ++ lines.flatMap (fun line => '\t' :: indent false line ++ ['\n']) ++ ['\x7d']

/-- The text in parentheses. -/
def parenthesised (text : List Char) : List Char :=
  '(' :: text ++ [')']

/-- The expressions whose own text begins and ends with a parenthesis. -/
def Expr.isParenthesised : Expr → Bool
  | .unary .. | .binary .. | .index .. => true
  | _ => false

/-! ## Text -/

mutual

/-- The canonical text of an expression. -/
def Expr.render : Expr → List Char
  | .name x => x.toList
  | .int n => Integer.text n
  | .str text => '"' :: text.toList ++ ['"']
  | .bool b => (toString b).toList
  | .unary op a => parenthesised (op.text.toList ++ a.render)
  | .binary op a b => parenthesised (a.render ++ ' ' :: op.text.toList ++ ' ' :: b.render)
  | .cond test yes no =>
    let shown := if test.isParenthesised then test.render else parenthesised test.render
    match no with
    | none => "if ".toList ++ shown ++ ' ' :: braced (renderLines yes)
    | some no =>
      "if ".toList ++ shown ++ ' ' :: braced (renderLines yes) ++ " else ".toList
        ++ braced (renderLines no)
  | .fn params body =>
    "fn".toList ++ parenthesised (commaSeparated (params.map String.toList))
      ++ ' ' :: braced (renderLines body)
  | .array elements => '[' :: commaSeparated (renderList elements) ++ [']']
  | .index a i => parenthesised (a.render ++ '[' :: i.render ++ [']'])
  | .hash pairs => '\x7b' :: commaSeparated (renderPairs pairs) ++ ['\x7d']
  | .call callee args => callee.render ++ parenthesised (commaSeparated (renderList args))

/-- The canonical text of a statement, with its semicolon. -/
def Statement.render : Statement → List Char
  | .bind x value => "let ".toList ++ x.toList ++ " = ".toList ++ value.render ++ [';']
  | .leave value => "return ".toList ++ value.render ++ [';']
  | .expr value => value.render ++ [';']

/-- The texts of the statements, one by one. -/
def renderLines : Block → List (List Char)
  | [] => []
  | s :: rest => s.render :: renderLines rest

/-- The texts of the expressions, one by one. -/
def renderList : List Expr → List (List Char)
  | [] => []
  | e :: rest => e.render :: renderList rest

/-- The texts of the pairs, one by one: a key, a colon and a value. -/
def renderPairs : List (Expr × Expr) → List (List Char)
  | [] => []
  | (key, value) :: rest => (key.render ++ ':' :: ' ' :: value.render) :: renderPairs rest

end

/-- The canonical text of a program: its statements, one to a line. -/
def Program.render (program : Program) : List Char :=
  List.intercalate ['\n'] (renderLines program)

def Expr.text (e : Expr) : String :=
  String.ofList e.render

def Program.text (program : Program) : String :=
  String.ofList program.render

/-! ## Lists are rendered item by item -/

theorem renderLines_eq_map (block : Block) : renderLines block = block.map Statement.render := by
  induction block with
  | nil => rfl
  | cons s rest ih => simp [renderLines, ih]

theorem renderList_eq_map (es : List Expr) : renderList es = es.map Expr.render := by
  induction es with
  | nil => rfl
  | cons e rest ih => simp [renderList, ih]

end Script
