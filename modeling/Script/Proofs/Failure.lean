import Script.Proofs.Eval.Failure

/-!
# The first failure

A context is what stands around a part of an expression, up to the statement. If what stands to the
left of the part has been evaluated and the part then fails, the whole fails in the same way: with
the same fault, and with the scopes and the printed text as they were at that moment. What stands to
the right is not evaluated, and nothing is bound.

Main statement: `firstFailureWins`.
-/

namespace Script

/-! ## Contexts -/

/-- One construct around a part of it. In a list, items stand in front of the part and behind it. -/
inductive Layer
  | operand (op : UnaryOp)
  | left (op : BinaryOp) (b : Expr)
  | right (op : BinaryOp) (a : Expr)
  | test (yes : Block) (no : Option Block)
  | callee (args : List Expr)
  | argument (f : Expr) (before after : List Expr)
  | element (before after : List Expr)
  | key (before : List (Expr × Expr)) (b : Expr) (after : List (Expr × Expr))
  | value (before : List (Expr × Expr)) (a : Expr) (after : List (Expr × Expr))
  | collection (i : Expr)
  | position (a : Expr)

/-- The construct with the part put in. -/
def Layer.fill (e : Expr) : Layer → Expr
  | operand op => .unary op e
  | left op b => .binary op e b
  | right op a => .binary op a e
  | test yes no => .cond e yes no
  | callee args => .call e args
  | argument f before after => .call f (before ++ e :: after)
  | element before after => .array (before ++ e :: after)
  | key before b after => .hash (before ++ (e, b) :: after)
  | value before a after => .hash (before ++ (a, e) :: after)
  | collection i => .index e i
  | position a => .index a e

/-- Constructs inside one another, the outermost one first. -/
abbrev Context := List Layer

def Context.fill (e : Expr) : Context → Expr
  | [] => e
  | layer :: context => layer.fill (Context.fill e context)

/-- Begun in `s`, what stands to the left of the part gives values and leaves `t`: a callee gives
something that can be called, and a key something that can be one. -/
inductive Layer.Opens (scope : ScopeId) : Layer → State → State → Prop
  | operand {op s} : Opens scope (.operand op) s s
  | left {op b s} : Opens scope (.left op b) s s
  | right {op a s v t} : Ends (.expr scope a) s (.ok v) t → Opens scope (.right op a) s t
  | test {yes no s} : Opens scope (.test yes no) s s
  | callee {args s} : Opens scope (.callee args) s s
  | argument {f before after s v t vs u} : Ends (.expr scope f) s (.ok v) t →
      v.isCallable = true → Ends (.all scope before) t (.ok vs) u →
      Opens scope (.argument f before after) s u
  | element {before after s vs t} : Ends (.all scope before) s (.ok vs) t →
      Opens scope (.element before after) s t
  | key {before b after s table t} : Ends (.pairs scope [] before) s (.ok table) t →
      Opens scope (.key before b after) s t
  | value {before a after s table t v k u} : Ends (.pairs scope [] before) s (.ok table) t →
      Ends (.expr scope a) t (.ok v) u → v.key? = some k → Opens scope (.value before a after) s u
  | collection {i s} : Opens scope (.collection i) s s
  | position {a s v t} : Ends (.expr scope a) s (.ok v) t → Opens scope (.position a) s t

inductive Context.Opens (scope : ScopeId) : Context → State → State → Prop
  | nil {s} : Opens scope [] s s
  | cons {layer context s t u} : layer.Opens scope s t → Opens scope context t u →
      Opens scope (layer :: context) s u

/-! ## The way to the part -/

section

variable {scope : ScopeId} {s t u : State}

theorem Layer.Opens.within {layer : Layer} (opens : layer.Opens scope s t) (e : Expr) :
    Within (.expr scope (layer.fill e)) s (.expr scope e) t := by
  have there : Within (.expr scope e) t (.expr scope e) t := .refl _ _
  cases opens with
  | operand => exact .step .operand rfl there
  | left => exact .step .left rfl there
  | right ends => exact .step (.right ends) rfl there
  | test => exact .step .test rfl there
  | callee => exact .step .callee rfl there
  | argument ends callable before =>
    exact .step (.arguments ends callable) rfl ((before.within_all _).trans (.step .first rfl there))
  | element before => exact .step .elements rfl ((before.within_all _).trans (.step .first rfl there))
  | key before => exact .step .hash rfl ((before.within_pairs _).trans (.step .key rfl there))
  | value before ends usable =>
    exact .step .hash rfl ((before.within_pairs _).trans (.step (.value ends usable) rfl there))
  | collection => exact .step .collection rfl there
  | position ends => exact .step (.position ends) rfl there

theorem Context.Opens.within {context : Context} (opens : Context.Opens scope context s t)
    (e : Expr) : Within (.expr scope (context.fill e)) s (.expr scope e) t := by
  induction opens with
  | nil => exact .refl _ _
  | cons layer _ ih => exact (layer.within _).trans ih

/-! ## Checks between the parts -/

/-- What cannot be called fails before any argument begins. -/
theorem Ends.notCallable {f : Expr} {args : List Expr} {v : Value}
    (ends : Ends (.expr scope f) s (.ok v) t) (other : v.isCallable = false) :
    Ends (.expr scope (.call f args)) s (.error (.notCallable v.type)) t ∧
      ∀ a w, Part (.expr scope (.call f args)) s a w → a = .expr scope f ∧ w = s := by
  constructor
  · rcases ends with ⟨n, ends⟩
    refine ⟨n + 1, (Eval.bind_of_ok ends).trans ?_⟩
    rw [if_neg (by simp [other])]
    rfl
  · intro a w part
    cases part with
    | callee => exact ⟨rfl, rfl⟩
    | arguments ends' callable =>
      cases (ends.unique ends').1
      simp [other] at callable
    | call ends' =>
      cases (ends.unique ends').1
      cases other

/-- What cannot be a key fails before its value begins. -/
theorem Ends.unusableKey {table : Table Key Value} {key value : Expr} {ps : List (Expr × Expr)}
    {v : Value} (ends : Ends (.expr scope key) s (.ok v) t) (unusable : v.key? = none) :
    Ends (.pairs scope table ((key, value) :: ps)) s (.error (.unusableKey v.type)) t ∧
      ∀ a w, Part (.pairs scope table ((key, value) :: ps)) s a w → a = .expr scope key ∧ w = s := by
  constructor
  · rcases ends with ⟨n, ends⟩
    refine ⟨n, (Eval.bind_of_ok ends).trans ?_⟩
    rw [unusable]
    rfl
  · intro a w part
    cases part with
    | key => exact ⟨rfl, rfl⟩
    | value ends' usable | morePairs ends' usable =>
      cases (ends.unique ends').1
      simp [unusable] at usable

end

/-! ## The first failure -/

/-- In the scope, the first failure is that of the whole, in every context and state. -/
structure FirstFailureWins (scope : ScopeId) : Prop where
  /-- An expression fails with its part, whatever stands behind the part. -/
  expr : ∀ (context : Context) (e : Expr) (s t : State), Context.Opens scope context s t →
    FailsWith (.expr scope (context.fill e)) s (.expr scope e) t
  /-- So does a statement: nothing is bound or returned. -/
  statement : ∀ (one : Statement) (context : Context) (e : Expr) (s t : State),
    one.value = context.fill e → Context.Opens scope context s t →
    FailsWith (.statement scope one) s (.expr scope e) t
  /-- If the callee cannot be called, it is all that is evaluated of the call. -/
  callee : ∀ (f : Expr) (args : List Expr) (v : Value) (s t : State),
    Ends (.expr scope f) s (.ok v) t → v.isCallable = false →
    Ends (.expr scope (.call f args)) s (.error (.notCallable v.type)) t ∧
      ∀ a w, Part (.expr scope (.call f args)) s a w → a = .expr scope f ∧ w = s
  /-- If a key cannot be one, it is the last that is evaluated of the hash. -/
  key : ∀ (before after : List (Expr × Expr)) (key value : Expr) (table : Table Key Value) (v : Value)
    (s t u : State), Ends (.pairs scope [] before) s (.ok table) t →
    Ends (.expr scope key) t (.ok v) u → v.key? = none →
    Ends (.expr scope (.hash (before ++ (key, value) :: after))) s (.error (.unusableKey v.type)) u ∧
      Within (.expr scope (.hash (before ++ (key, value) :: after))) s
        (.pairs scope table ((key, value) :: after)) t ∧
      ∀ a w, Part (.pairs scope table ((key, value) :: after)) t a w → a = .expr scope key ∧ w = t

theorem firstFailureWins (scope : ScopeId) : FirstFailureWins scope where
  expr context e s t opens := (opens.within e).failsWith
  statement one context e s t filled opens := by
    have within := opens.within e
    rw [← filled] at within
    exact (Within.step .expr rfl within).failsWith
  callee f args v s t ends other := ends.notCallable other
  key before after key value table v s t u front ends unusable := by
    have within : Within (.expr scope (.hash (before ++ (key, value) :: after))) s
        (.pairs scope table ((key, value) :: after)) t :=
      .step .hash rfl (front.within_pairs _)
    rcases ends.unusableKey unusable with ⟨fails, alone⟩
    exact ⟨within.reaches.fails fails, within, alone⟩

/-- For example, `let x = [puts("one"), 2 + true, y]` prints one line and binds nothing. -/
theorem firstFailureWins_element :
    let sum : Expr := .binary .add (.int 2) (.bool true)
    let one : Statement := .bind "x" (.array [.call (.name "puts") [.str "one"], sum, .name "y"])
    Ends (.statement State.root one) .initial (.error (.typeMismatch .int .add .bool))
      (State.initial.printLine "one") := by
  intro sum one
  have free : State.initial.lookup "puts" State.root = none := by
    rw [State.lookup]
    rfl
  have found : Expr.eval 1 State.root (.name "puts") .initial =
      some (.ok (.builtin .puts), .initial) := by
    simp only [Expr.eval, Expr.step, evalName, Eval.bind_apply, Eval.look, free]
    rfl
  have called : Expr.eval 2 State.root (.call (.name "puts") [.str "one"]) .initial =
      some (.ok .null, State.initial.printLine "one") := Eval.bind_of_ok found
  have printed : Ends (.all State.root [.call (.name "puts") [.str "one"]]) .initial (.ok [.null])
      (State.initial.printLine "one") := ⟨2, Eval.bind_of_ok called⟩
  have opens : Context.Opens State.root [.element [.call (.name "puts") [.str "one"]] [.name "y"]]
      .initial (State.initial.printLine "one") := .cons (.element printed) .nil
  have fails : Ends (.expr State.root sum) (State.initial.printLine "one")
      (.error (.typeMismatch .int .add .bool)) (State.initial.printLine "one") := ⟨2, rfl⟩
  exact ((firstFailureWins State.root).statement one _ sum _ _ rfl opens _ _ fails).1

end Script
