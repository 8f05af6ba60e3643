import Script.Eval.Expr
import Script.Proofs.Eval.Origin

/-!
# What evaluation does to the state

Evaluation changes the state in few ways: it binds a name in its own scope, it makes a scope for a
call and evaluates in it, and it makes objects and prints. `Effects R Q` says that `R scope` allows for
what evaluating in `scope` may do, and `Q` for what a call may do. It is enough to check the few ways:
`Expr.eval_keeps` and `Value.call_keeps`.
-/

namespace Script

/-! ## Effects -/

/-- Evaluating in `scope` relates the states by `R scope`, and a call by `Q`. -/
structure Effects (R : ScopeId → State → State → Prop) (Q : State → State → Prop) : Prop where
  chains : ∀ scope, State.Chains (R scope)
  own : ∀ scope {s t : State}, Q s t → R scope s t
  bind : ∀ scope x v (s : State), R scope s (s.bind scope x v)
  /-- A call begins with a new scope. -/
  enter : ∀ {s t : State} {here : Scope}, R s.scopes.size (s.addScope here).2 t → Q s t
  /-- Objects are made and lines are printed. -/
  objects : ∀ {s t : State}, t.scopes = s.scopes → s.fresh ≤ t.fresh → Q s t

variable {R : ScopeId → State → State → Prop} {Q : State → State → Prop}

theorem Effects.refl (effects : Effects R Q) (s : State) : Q s s :=
  effects.objects rfl (Nat.le_refl _)

theorem Effects.newObject (effects : Effects R Q) (scope : ScopeId) (make : State → Value) :
    (Eval.change fun s => (make s, s.useFresh)).Keeps (R scope) :=
  .change fun _ => effects.own scope (effects.objects rfl (Nat.le_succ _))

theorem Effects.builtin (effects : Effects R Q) (b : Builtin) (args : List Value) :
    (b.call args).Keeps Q := by
  intro s
  refine (b.call_outcome args).mono fun r t outcome => ?_
  cases r with
  | error e => exact (show t = s from outcome) ▸ effects.refl s
  | ok v =>
    cases outcome with
    | plain _ scopes fresh => exact effects.objects scopes (fresh ▸ Nat.le_refl _)
    | given => exact effects.refl s
    | new => exact effects.objects rfl (Nat.le_succ _)

/-! ## One step of evaluation -/

/-- In every scope the evaluator does no more than `R` allows for. -/
def Evaluator.Keeps (R : ScopeId → State → State → Prop) (eval : Evaluator) : Prop :=
  ∀ scope e, (eval scope e).Keeps (R scope)

section

variable {eval : Evaluator} (effects : Effects R Q) (keeps : eval.Keeps R)

include effects keeps

theorem evalAll_keeps (scope : ScopeId) (es : List Expr) :
    (evalAll (eval scope) es).Keeps (R scope) := by
  have chains := effects.chains scope
  induction es with
  | nil => exact .pure chains _
  | cons e es ih =>
    exact .bind chains (keeps scope e) fun v => .bind chains ih fun vs => .pure chains _

theorem evalPairs_keeps (scope : ScopeId) (table : Table Key Value) (pairs : List (Expr × Expr)) :
    (evalPairs (eval scope) table pairs).Keeps (R scope) := by
  have chains := effects.chains scope
  induction pairs generalizing table with
  | nil => exact .pure chains _
  | cons pair rest ih =>
    refine .bind chains (keeps scope pair.1) fun k => ?_
    cases k.key? with
    | none => exact .fail chains _
    | some key => exact .bind chains (keeps scope pair.2) fun v => ih _

theorem Statement.step_keeps (scope : ScopeId) (statement : Statement) :
    (statement.step eval scope).Keeps (R scope) := by
  have chains := effects.chains scope
  cases statement with
  | bind x value =>
    refine .bind chains (keeps scope value) fun v => ?_
    split
    · exact .pure chains _
    · exact .bind chains (.change (effects.bind scope x v)) fun _ => .pure chains _
  | leave value => exact .bind chains (keeps scope value) fun _ => .pure chains _
  | expr value => exact .bind chains (keeps scope value) fun _ => .pure chains _

theorem Statement.stepAll_keeps (scope : ScopeId) (last : Option Value) (block : Block) :
    (stepAll eval scope last block).Keeps (R scope) := by
  have chains := effects.chains scope
  induction block generalizing last with
  | nil => exact .pure chains _
  | cons statement rest ih =>
    refine .bind chains (Statement.step_keeps effects keeps scope statement) fun result => ?_
    split
    · exact .pure chains _
    · exact ih result

theorem Block.step_keeps (scope : ScopeId) (block : Block) :
    (Block.step eval scope block).Keeps (R scope) :=
  .bind (effects.chains scope) (Statement.stepAll_keeps effects keeps scope none block) fun _ =>
    .pure (effects.chains scope) _

/-- The scope of a call is new. -/
theorem Closure.step_keeps (f : Closure) (args : List Value) : (f.step eval args).Keeps Q := by
  intro s
  refine Eval.After.bind (Eval.After.change ?_)
  have inside := Block.step_keeps effects keeps s.scopes.size f.body (s.addScope (f.frame args)).2
  refine Eval.After.bind (inside.mono fun r s' changed => ?_)
  cases r with
  | ok v => exact Eval.After.pure (effects.enter changed)
  | error e => exact effects.enter changed

theorem Value.stepCall_keeps (callee : Value) (args : List Value) :
    (callee.stepCall eval args).Keeps Q := by
  cases callee with
  | function _ f => exact Closure.step_keeps effects keeps f args
  | builtin b => exact effects.builtin b args
  | _ => exact fun s => Eval.After.fail (effects.refl s)

theorem Expr.step_keeps (scope : ScopeId) (e : Expr) :
    (e.step eval scope).Keeps (R scope) := by
  have chains := effects.chains scope
  cases e with
  | name x =>
    refine .bind chains (.look chains _) fun found => ?_
    cases found with
    | some v => exact .pure chains v
    | none =>
      cases Builtin.ofName? x with
      | some b => exact .pure chains _
      | none => exact .fail chains _
  | int n => exact .pure chains _
  | str text => exact .pure chains _
  | bool b => exact .pure chains _
  | unary op operand => exact .bind chains (keeps scope operand) fun _ => .ofExcept chains _
  | binary op left right =>
    exact .bind chains (keeps scope left) fun _ =>
      .bind chains (keeps scope right) fun _ => .ofExcept chains _
  | cond test yes no =>
    -- Blocks are evaluated in the scope around them.
    refine .bind chains (keeps scope test) fun v => ?_
    split
    · exact Block.step_keeps effects keeps scope yes
    · cases no with
      | none => exact .pure chains _
      | some no => exact Block.step_keeps effects keeps scope no
  | fn params body => exact effects.newObject scope _
  | array elements =>
    exact .bind chains (evalAll_keeps effects keeps scope elements) fun vs => effects.newObject scope _
  | index collection i =>
    exact .bind chains (keeps scope collection) fun _ =>
      .bind chains (keeps scope i) fun _ => .ofExcept chains _
  | hash pairs =>
    exact .bind chains (evalPairs_keeps effects keeps scope [] pairs) fun table =>
      effects.newObject scope _
  | call callee args =>
    refine .bind chains (keeps scope callee) fun f => ?_
    split
    · exact .bind chains (evalAll_keeps effects keeps scope args) fun vs =>
        (Value.stepCall_keeps effects keeps f vs).mono fun _ _ => effects.own scope
    · exact .fail chains _

end

/-! ## Every depth -/

section

variable (effects : Effects R Q)

include effects

theorem Expr.eval_keeps (n : Nat) : (Expr.eval n).Keeps R := by
  induction n with
  | zero =>
    intro scope e s r s' ends
    cases ends
  | succ n ih => exact Expr.step_keeps effects ih

theorem Value.call_keeps (n : Nat) (callee : Value) (args : List Value) :
    (callee.call n args).Keeps Q :=
  Value.stepCall_keeps effects (Expr.eval_keeps effects n) callee args

end

end Script
