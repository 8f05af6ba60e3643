import Script.Value.Basic

/-!
# The names of a program

The names that occur in a program: those it looks up, those it binds, and the parameters of its
functions. A function value has the names of its parameters and of its body.
-/

namespace Script

mutual

/-- The names that occur in the expression. -/
def Expr.names : Expr → List String
  | .name x => [x]
  | .int _ | .str _ | .bool _ => []
  | .unary _ a => a.names
  | .binary _ a b => a.names ++ b.names
  | .cond test yes none => test.names ++ blockNames yes
  | .cond test yes (some no) => test.names ++ blockNames yes ++ blockNames no
  | .fn params body => params ++ blockNames body
  | .array es => listNames es
  | .index a i => a.names ++ i.names
  | .hash ps => pairNames ps
  | .call f args => f.names ++ listNames args

def Statement.names : Statement → List String
  | .bind x value => x :: value.names
  | .leave value | .expr value => value.names

def blockNames : Block → List String
  | [] => []
  | s :: rest => s.names ++ blockNames rest

def listNames : List Expr → List String
  | [] => []
  | e :: rest => e.names ++ listNames rest

def pairNames : List (Expr × Expr) → List String
  | [] => []
  | (key, value) :: rest => key.names ++ value.names ++ pairNames rest

end

/-- The names that occur in the program. -/
def Program.names (program : Program) : List String :=
  blockNames program

/-- The names that occur in the function. -/
def Closure.names (f : Closure) : List String :=
  f.params ++ blockNames f.body

end Script
