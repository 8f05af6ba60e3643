/-!
# Programs

A program is a list of statements; statements and expressions contain one another. Blocks, the
bodies of functions and of the branches of a condition, are lists of statements too.
-/

namespace Script

/-! ## Operators -/

inductive UnaryOp
  | negate
  | not
  deriving DecidableEq, Repr

inductive BinaryOp
  | add
  | sub
  | mul
  | div
  | less
  | greater
  | equal
  | notEqual
  deriving DecidableEq, Repr

def UnaryOp.text : UnaryOp → String
  | .negate => "-"
  | .not => "!"

def BinaryOp.text : BinaryOp → String
  | .add => "+"
  | .sub => "-"
  | .mul => "*"
  | .div => "/"
  | .less => "<"
  | .greater => ">"
  | .equal => "=="
  | .notEqual => "!="

def UnaryOp.all : List UnaryOp :=
  [.negate, .not]

def BinaryOp.all : List BinaryOp :=
  [.add, .sub, .mul, .div, .less, .greater, .equal, .notEqual]

/-- The unary operator with the given text. -/
def UnaryOp.ofText? (text : String) : Option UnaryOp :=
  all.find? fun op => op.text = text

/-- The binary operator with the given text. -/
def BinaryOp.ofText? (text : String) : Option BinaryOp :=
  all.find? fun op => op.text = text

/-! ## Trees -/

mutual

inductive Expr
  /-- The value bound to a name. -/
  | name (x : String)
  | int (n : Int64)
  | str (text : String)
  | bool (b : Bool)
  | unary (op : UnaryOp) (operand : Expr)
  | binary (op : BinaryOp) (left right : Expr)
  /-- A choice between two blocks; the second may be missing. -/
  | cond (test : Expr) (yes : List Statement) (no : Option (List Statement))
  /-- A function with the names of its parameters and its body. -/
  | fn (params : List String) (body : List Statement)
  | array (elements : List Expr)
  | index (collection index : Expr)
  /-- A hash, written as pairs of a key and a value. -/
  | hash (pairs : List (Expr × Expr))
  | call (callee : Expr) (args : List Expr)

inductive Statement
  /-- Binds a name to a value. -/
  | bind (x : String) (value : Expr)
  /-- Leaves the enclosing function with a value. -/
  | leave (value : Expr)
  /-- An expression on its own. -/
  | expr (value : Expr)

end

abbrev Block := List Statement

abbrev Program := List Statement

end Script
