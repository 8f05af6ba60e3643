import Script.Eval.Expr

/-!
# Depth does not matter

An evaluation that ends at some depth ends with the same answer at every greater depth. Main
statement: `Expr.eval_mono`, and for the other entry points `Statement.run_mono`,
`Statement.runAll_mono`, `Block.run_mono`, `Value.call_mono` and `Program.run_mono`.
-/

namespace Script

/-! ## Evaluations that know more -/

/-- Wherever `x` ends, `y` ends with the same answer. -/
def Eval.Extends {α : Type} (x y : Eval α) : Prop :=
  ∀ s r, x s = some r → y s = some r

namespace Eval.Extends

variable {α β : Type}

theorem refl (x : Eval α) : x.Extends x :=
  fun _ _ h => h

theorem bind {x y : Eval α} {f g : α → Eval β} (first : x.Extends y)
    (next : ∀ a, (f a).Extends (g a)) : (x >>= f).Extends (y >>= g) := by
  intro s r h
  rw [Eval.bind_apply] at h ⊢
  cases hx : x s with
  | none => simp [hx] at h
  | some result =>
    obtain ⟨outcome, s'⟩ := result
    rw [first s _ hx]
    rw [hx] at h
    cases outcome with
    | ok a => exact next a s' r h
    | error e => exact h

end Eval.Extends

/-- An evaluator that ends wherever another one does. -/
def Evaluator.Extends (eval eval' : Evaluator) : Prop :=
  ∀ scope e, (eval scope e).Extends (eval' scope e)

/-! ## One step -/

section

variable {eval eval' : Evaluator} (le : eval.Extends eval')

include le

theorem evalAll_mono (scope : ScopeId) (es : List Expr) :
    (evalAll (eval scope) es).Extends (evalAll (eval' scope) es) := by
  induction es with
  | nil => exact .refl _
  | cons e es ih => exact (le scope e).bind fun v => ih.bind fun vs => .refl _

theorem evalPairs_mono (scope : ScopeId) (table : Table Key Value) (pairs : List (Expr × Expr)) :
    (evalPairs (eval scope) table pairs).Extends (evalPairs (eval' scope) table pairs) := by
  induction pairs generalizing table with
  | nil => exact .refl _
  | cons pair rest ih =>
    refine (le scope pair.1).bind fun k => ?_
    cases k.key? with
    | none => exact .refl _
    | some key => exact (le scope pair.2).bind fun v => ih _

theorem Statement.step_mono (scope : ScopeId) (statement : Statement) :
    (statement.step eval scope).Extends (statement.step eval' scope) := by
  cases statement with
  | bind x value => exact (le scope value).bind fun _ => .refl _
  | leave value => exact (le scope value).bind fun _ => .refl _
  | expr value => exact (le scope value).bind fun _ => .refl _

theorem Statement.stepAll_mono (scope : ScopeId) (last : Option Value) (block : Block) :
    (stepAll eval scope last block).Extends (stepAll eval' scope last block) := by
  induction block generalizing last with
  | nil => exact .refl _
  | cons statement rest ih =>
    refine (Statement.step_mono le scope statement).bind fun result => ?_
    split
    · exact .refl _
    · exact ih result

theorem Block.step_mono (scope : ScopeId) (block : Block) :
    (Block.step eval scope block).Extends (Block.step eval' scope block) :=
  (Statement.stepAll_mono le scope none block).bind fun _ => .refl _

theorem Closure.step_mono (f : Closure) (args : List Value) :
    (f.step eval args).Extends (f.step eval' args) :=
  (Eval.Extends.refl _).bind fun scope =>
    (Block.step_mono le scope f.body).bind fun _ => .refl _

theorem Value.stepCall_mono (callee : Value) (args : List Value) :
    (callee.stepCall eval args).Extends (callee.stepCall eval' args) := by
  cases callee with
  | function _ f => exact Closure.step_mono le f args
  | _ => exact .refl _

theorem Expr.step_mono (scope : ScopeId) (e : Expr) :
    (e.step eval scope).Extends (e.step eval' scope) := by
  cases e with
  | name x => exact .refl _
  | int n => exact .refl _
  | str text => exact .refl _
  | bool b => exact .refl _
  | unary op operand => exact (le scope operand).bind fun _ => .refl _
  | binary op left right =>
    exact (le scope left).bind fun _ => (le scope right).bind fun _ => .refl _
  | cond test yes no =>
    refine (le scope test).bind fun v => ?_
    split
    · exact Block.step_mono le scope yes
    · cases no with
      | none => exact .refl _
      | some no => exact Block.step_mono le scope no
  | fn params body => exact .refl _
  | array elements => exact (evalAll_mono le scope elements).bind fun _ => .refl _
  | index collection i =>
    exact (le scope collection).bind fun _ => (le scope i).bind fun _ => .refl _
  | hash pairs => exact (evalPairs_mono le scope [] pairs).bind fun _ => .refl _
  | call callee args =>
    refine (le scope callee).bind fun f => ?_
    split
    · exact (evalAll_mono le scope args).bind fun vs => Value.stepCall_mono le f vs
    · exact .refl _

end

/-! ## Every depth -/

theorem Expr.eval_extends_succ (n : Nat) : (Expr.eval n).Extends (Expr.eval (n + 1)) := by
  induction n with
  | zero =>
    intro scope e s r h
    simp [Expr.eval] at h
  | succ n ih => exact Expr.step_mono ih

theorem Expr.eval_mono {m n : Nat} (h : m ≤ n) : (Expr.eval m).Extends (Expr.eval n) := by
  induction h with
  | refl => exact fun scope e => .refl _
  | step _ ih => exact fun scope e s r hr => Expr.eval_extends_succ _ scope e s r (ih scope e s r hr)

theorem Statement.run_mono {m n : Nat} (h : m ≤ n) (scope : ScopeId) (statement : Statement) :
    (statement.run m scope).Extends (statement.run n scope) :=
  Statement.step_mono (Expr.eval_mono h) scope statement

theorem Statement.runAll_mono {m n : Nat} (h : m ≤ n) (scope : ScopeId) (block : Block) :
    (runAll m scope block).Extends (runAll n scope block) :=
  Statement.stepAll_mono (Expr.eval_mono h) scope none block

theorem Block.run_mono {m n : Nat} (h : m ≤ n) (scope : ScopeId) (block : Block) :
    (block.run m scope).Extends (block.run n scope) :=
  Block.step_mono (Expr.eval_mono h) scope block

theorem Value.call_mono {m n : Nat} (h : m ≤ n) (callee : Value) (args : List Value) :
    (callee.call m args).Extends (callee.call n args) :=
  Value.stepCall_mono (Expr.eval_mono h) callee args

theorem Program.run_mono {m n : Nat} (h : m ≤ n) (scope : ScopeId) (program : Program) {s : State}
    {r : Option Value × State} (ends : program.run m scope s = some r) :
    program.run n scope s = some r := by
  unfold Program.run at ends ⊢
  cases hm : Statement.runAll m scope program s with
  | none => simp [hm] at ends
  | some result =>
    rw [hm] at ends
    rw [Statement.runAll_mono h scope program s _ hm]
    exact ends

end Script
