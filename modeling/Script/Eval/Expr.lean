import Script.Eval.Operator
import Script.Eval.Builtin

/-!
# Evaluation

One step of evaluation takes apart one expression and leaves its parts to a given evaluator:
`Expr.step` and what belongs to it are defined for any evaluator of parts. `Expr.eval n` evaluates
to depth `n`: its parts are evaluated to depth `n - 1`, and at depth 0 evaluation is cut off. So
every evaluation that ends does so from some depth on, with the same answer.

A `return` inside a block gives a marked value. The marker stops the statements around it up to the
body of the function, where it is taken off.
-/

namespace Script

/-- What gives a meaning to the expressions of a scope. -/
abbrev Evaluator := ScopeId → Expr → Eval Value

/-! ## Lists of expressions -/

/-- The values of the expressions, from left to right. -/
def evalAll (eval : Expr → Eval Value) : List Expr → Eval (List Value)
  | [] => pure []
  | e :: es => do
    let v ← eval e
    let vs ← evalAll eval es
    pure (v :: vs)

/-- Adds the pairs to a table, from left to right. A key is checked before its value is evaluated. -/
def evalPairs (eval : Expr → Eval Value) (table : Table Key Value) :
    List (Expr × Expr) → Eval (Table Key Value)
  | [] => pure table
  | (key, value) :: rest => do
    let k ← eval key
    match k.key? with
    | none => Eval.fail (.unusableKey k.type)
    | some k =>
      let v ← eval value
      evalPairs eval (table.insert k v) rest

/-! ## Statements -/

namespace Statement

/-- Runs one statement. A marked value is not bound but handed on. -/
def step (eval : Evaluator) (scope : ScopeId) : Statement → Eval (Option Value)
  | bind x value => do
    let v ← eval scope value
    if v.isReturned then pure (some v)
    else do
      Eval.bindName scope x v
      pure none
  | leave value => do
    let v ← eval scope value
    pure (some (.returned v))
  | expr value => do
    let v ← eval scope value
    pure (some v)

/-- Runs statements up to the first marked value. The result is that of the last statement run, and
`last` if there is none. -/
def stepAll (eval : Evaluator) (scope : ScopeId) (last : Option Value) :
    Block → Eval (Option Value)
  | [] => pure last
  | s :: rest => do
    let result ← s.step eval scope
    if result.any Value.isReturned then pure result
    else stepAll eval scope result rest

end Statement

/-- Runs a block in a scope; its value is `null` if the last statement has none. -/
def Block.step (eval : Evaluator) (scope : ScopeId) (block : Block) : Eval Value := do
  let result ← Statement.stepAll eval scope none block
  pure (result.getD .null)

/-! ## Calls -/

/-- The bindings of a call: each parameter to the argument at its place, or to `null` where there is
none. A name that occurs twice keeps the later argument. -/
def bindParams (bindings : Table String Value) : List String → List Value → Table String Value
  | [], _ => bindings
  | x :: xs, args => bindParams (bindings.insert x (args.headD .null)) xs args.tail

/-- The scope of a call, inside the one that the function was made in. -/
def Closure.frame (f : Closure) (args : List Value) : Scope :=
  ⟨bindParams [] f.params args, some f.scope⟩

/-- Runs the body of a function in the scope of the call, and takes the marker off its value. -/
def Closure.step (eval : Evaluator) (f : Closure) (args : List Value) : Eval Value := do
  let scope ← Eval.change (·.addScope (f.frame args))
  let v ← f.body.step eval scope
  pure v.unwrap

/-- Calls a value. -/
def Value.stepCall (eval : Evaluator) : Value → List Value → Eval Value
  | .function _ f, args => f.step eval args
  | .builtin b, args => b.call args
  | v, _ => Eval.fail (.notCallable v.type)

/-- Can the value be called? -/
def Value.isCallable : Value → Bool
  | .function .. | .builtin _ => true
  | _ => false

/-! ## Expressions -/

/-- The value of a name: bound in a scope, or else a built-in function. -/
def evalName (scope : ScopeId) (x : String) : Eval Value := do
  match ← Eval.look (·.lookup x scope) with
  | some v => pure v
  | none =>
    match Builtin.ofName? x with
    | some b => pure (.builtin b)
    | none => Eval.fail (.unbound x)

/-- Evaluates an expression, leaving its parts to `eval`. -/
def Expr.step (eval : Evaluator) (scope : ScopeId) : Expr → Eval Value
  | name x => evalName scope x
  | int n => pure (.int n)
  | str text => pure (.str text)
  | bool b => pure (.bool b)
  | unary op operand => do
    let v ← eval scope operand
    Eval.ofExcept (op.apply v)
  | binary op left right => do
    let v ← eval scope left
    let w ← eval scope right
    Eval.ofExcept (op.apply v w)
  | cond test yes no => do
    let v ← eval scope test
    if v.isTruthy then Block.step eval scope yes
    else
      match no with
      | some no => Block.step eval scope no
      | none => pure .null
  | fn params body => Eval.newFunction ⟨params, body, scope⟩
  | array elements => do
    let vs ← evalAll (eval scope) elements
    Eval.newArray vs
  | index collection i => do
    let v ← eval scope collection
    let w ← eval scope i
    Eval.ofExcept (v.elementAt w)
  | hash pairs => do
    let table ← evalPairs (eval scope) [] pairs
    Eval.newHash table
  | call callee args => do
    let f ← eval scope callee
    if f.isCallable then do
      let vs ← evalAll (eval scope) args
      f.stepCall eval vs
    else Eval.fail (.notCallable f.type)

/-- Evaluates an expression to depth `n`. -/
def Expr.eval : Nat → Evaluator
  | 0 => fun _ _ _ => none
  | n + 1 => Expr.step (Expr.eval n)

/-- Runs a statement whose expressions are evaluated to depth `n`. -/
def Statement.run (n : Nat) (scope : ScopeId) (statement : Statement) : Eval (Option Value) :=
  statement.step (Expr.eval n) scope

/-- Runs the statements of a block or program, up to the first marked value. -/
def Statement.runAll (n : Nat) (scope : ScopeId) (statements : List Statement) :
    Eval (Option Value) :=
  stepAll (Expr.eval n) scope none statements

/-- Runs a block. -/
def Block.run (n : Nat) (scope : ScopeId) (block : Block) : Eval Value :=
  block.step (Expr.eval n) scope

/-- Calls a value with arguments. -/
def Value.call (n : Nat) (callee : Value) (args : List Value) : Eval Value :=
  callee.stepCall (Expr.eval n) args

/-! ## Programs -/

/-- Runs a program in a scope. A marked value ends it and is unwrapped, a fault ends it and becomes
its value; a program that ends in a binding has no value. -/
def Program.run (n : Nat) (scope : ScopeId) (program : Program) (s : State) :
    Option (Option Value × State) :=
  match Statement.runAll n scope program s with
  | none => none
  | some (.ok result, s') => some (result.map Value.unwrap, s')
  | some (.error e, s') => some (some (.error e), s')

end Script
