import Script.Eval.Depth

/-!
# What an evaluation comes by

An evaluation consists of tasks: an expression to be evaluated, a list of expressions or of pairs, a
statement, statements in a row, the body of a function or of a program. `Ends task s r s'` says that
the task, begun in the state `s`, ends with the outcome `r` in the state `s'`, at whatever depth.
`Part` is the step from a task to one that it begins next, or begins as soon as the parts before it
have ended, and `Reaches` takes any number of such steps. A task need not end for its parts to begin.
-/

namespace Script

/-! ## Tasks -/

inductive Task
  | expr (scope : ScopeId) (e : Expr)
  /-- Expressions, from left to right. -/
  | all (scope : ScopeId) (es : List Expr)
  /-- Pairs, from left to right, that go into a table. -/
  | pairs (scope : ScopeId) (table : Table Key Value) (ps : List (Expr × Expr))
  | statement (scope : ScopeId) (one : Statement)
  /-- Statements behind one with the result `last`. -/
  | statements (scope : ScopeId) (last : Option Value) (block : Block)
  /-- All statements of a function or a program. -/
  | body (scope : ScopeId) (block : Block)

/-- What a task gives. -/
abbrev Task.Result : Task → Type
  | .expr .. => Value
  | .all .. => List Value
  | .pairs .. => Table Key Value
  | .statement .. | .statements .. | .body .. => Option Value

/-- Carries out a task to depth `n`. -/
def Task.eval (n : Nat) : (task : Task) → Eval task.Result
  | .expr scope e => Expr.eval n scope e
  | .all scope es => evalAll (Expr.eval n scope) es
  | .pairs scope table ps => evalPairs (Expr.eval n scope) table ps
  | .statement scope one => one.run n scope
  | .statements scope last block => Statement.stepAll (Expr.eval n) scope last block
  | .body scope block => Statement.runAll n scope block

theorem Task.eval_mono {m n : Nat} (h : m ≤ n) (task : Task) :
    (task.eval m).Extends (task.eval n) := by
  have le := Expr.eval_mono h
  cases task with
  | expr scope e => exact le scope e
  | all scope es => exact evalAll_mono le scope es
  | pairs scope table ps => exact evalPairs_mono le scope table ps
  | statement scope one => exact Statement.step_mono le scope one
  | statements scope last block => exact Statement.stepAll_mono le scope last block
  | body scope block => exact Statement.stepAll_mono le scope none block

/-! ## Outcomes -/

/-- Begun in `s`, the task ends with the outcome `r` in `s'`. -/
def Ends (task : Task) (s : State) (r : Except Fault task.Result) (s' : State) : Prop :=
  ∃ n, task.eval n s = some (r, s')

theorem Ends.unique {task : Task} {s s₁ s₂ : State} {r₁ r₂ : Except Fault task.Result}
    (first : Ends task s r₁ s₁) (second : Ends task s r₂ s₂) : r₁ = r₂ ∧ s₁ = s₂ := by
  rcases first with ⟨m, first⟩
  rcases second with ⟨n, second⟩
  -- Both outcomes are also those at the greater depth.
  have deeper := task.eval_mono (Nat.le_max_left m n) s _ first
  have deeper' := task.eval_mono (Nat.le_max_right m n) s _ second
  rw [deeper] at deeper'
  cases deeper'
  exact ⟨rfl, rfl⟩

/-- Two tasks that end do so at a common depth. -/
theorem Ends.together {a b : Task} {s s' t t' : State} {r : Except Fault a.Result}
    {q : Except Fault b.Result} (first : Ends a s r s') (second : Ends b t q t') :
    ∃ n, a.eval n s = some (r, s') ∧ b.eval n t = some (q, t') := by
  rcases first with ⟨m, first⟩
  rcases second with ⟨n, second⟩
  exact ⟨max m n, a.eval_mono (Nat.le_max_left m n) s _ first,
    b.eval_mono (Nat.le_max_right m n) t _ second⟩

theorem Ends.allTogether {a b c : Task} {s s' t t' u u' : State} {r : Except Fault a.Result}
    {q : Except Fault b.Result} {p : Except Fault c.Result} (first : Ends a s r s')
    (second : Ends b t q t') (third : Ends c u p u') :
    ∃ n, a.eval n s = some (r, s') ∧ b.eval n t = some (q, t') ∧ c.eval n u = some (p, u') := by
  rcases first with ⟨m, first⟩
  rcases second.together third with ⟨n, second, third⟩
  have deep := Nat.le_max_left m n
  have deep' := Nat.le_max_right m n
  exact ⟨max m n, a.eval_mono deep s _ first, b.eval_mono deep' t _ second,
    c.eval_mono deep' u _ third⟩

/-- An expression ends with what one step makes of its parts. -/
theorem Ends.of_step {n : Nat} {scope : ScopeId} {e : Expr} {s s' : State} {r : Except Fault Value}
    (h : e.step (Expr.eval n) scope s = some (r, s')) : Ends (.expr scope e) s r s' :=
  ⟨n + 1, h⟩

/-- A program ends where its body does, with the body's value unwrapped or with its fault. -/
theorem Program.run_ends {program : Program} {n : Nat} {scope : ScopeId} {s s' : State}
    {result : Option Value} (h : program.run n scope s = some (result, s')) :
    (∃ r, Ends (.body scope program) s (.ok r) s' ∧ result = r.map Value.unwrap) ∨
      ∃ e, Ends (.body scope program) s (.error e) s' ∧ result = some (.error e) := by
  unfold Program.run at h
  rcases whole : Statement.runAll n scope program s with _ | ⟨e | r, t⟩
  · simp [whole] at h
  · rw [whole] at h
    cases h
    exact .inr ⟨e, ⟨n, whole⟩, rfl⟩
  · rw [whole] at h
    cases h
    exact .inl ⟨r, ⟨n, whole⟩, rfl⟩

/-! ## Parts -/

/-- The expression of a statement. -/
def Statement.value : Statement → Expr
  | .bind _ value | .leave value | .expr value => value

inductive Part : Task → State → Task → State → Prop
  -- Expressions.
  | operand {scope op a s} : Part (.expr scope (.unary op a)) s (.expr scope a) s
  | left {scope op a b s} : Part (.expr scope (.binary op a b)) s (.expr scope a) s
  | right {scope op a b s v t} : Ends (.expr scope a) s (.ok v) t →
      Part (.expr scope (.binary op a b)) s (.expr scope b) t
  | test {scope test yes no s} : Part (.expr scope (.cond test yes no)) s (.expr scope test) s
  | yes {scope test yes no s v t} : Ends (.expr scope test) s (.ok v) t → v.isTruthy = true →
      Part (.expr scope (.cond test yes no)) s (.statements scope none yes) t
  | no {scope test yes no s v t} : Ends (.expr scope test) s (.ok v) t → v.isTruthy = false →
      Part (.expr scope (.cond test yes (some no))) s (.statements scope none no) t
  | elements {scope es s} : Part (.expr scope (.array es)) s (.all scope es) s
  | collection {scope a i s} : Part (.expr scope (.index a i)) s (.expr scope a) s
  | position {scope a i s v t} : Ends (.expr scope a) s (.ok v) t →
      Part (.expr scope (.index a i)) s (.expr scope i) t
  | hash {scope ps s} : Part (.expr scope (.hash ps)) s (.pairs scope [] ps) s
  | callee {scope f args s} : Part (.expr scope (.call f args)) s (.expr scope f) s
  | arguments {scope f args s v t} : Ends (.expr scope f) s (.ok v) t → v.isCallable = true →
      Part (.expr scope (.call f args)) s (.all scope args) t
  | call {scope f args s id closure t vs u} : Ends (.expr scope f) s (.ok (.function id closure)) t →
      Ends (.all scope args) t (.ok vs) u →
      Part (.expr scope (.call f args)) s (.body u.scopes.size closure.body)
        (u.addScope (closure.frame vs)).2
  -- Lists.
  | first {scope e es s} : Part (.all scope (e :: es)) s (.expr scope e) s
  | others {scope e es s v t} : Ends (.expr scope e) s (.ok v) t →
      Part (.all scope (e :: es)) s (.all scope es) t
  | key {scope table key value ps s} :
      Part (.pairs scope table ((key, value) :: ps)) s (.expr scope key) s
  | value {scope table key value ps s v t k} : Ends (.expr scope key) s (.ok v) t →
      v.key? = some k → Part (.pairs scope table ((key, value) :: ps)) s (.expr scope value) t
  | morePairs {scope table key value ps s v t k w u} : Ends (.expr scope key) s (.ok v) t →
      v.key? = some k → Ends (.expr scope value) t (.ok w) u →
      Part (.pairs scope table ((key, value) :: ps)) s (.pairs scope (table.insert k w) ps) u
  -- Statements.
  | expr {scope one s} : Part (.statement scope one) s (.expr scope one.value) s
  | statement {scope last one rest s} :
      Part (.statements scope last (one :: rest)) s (.statement scope one) s
  | statements {scope last one rest s result t} :
      Ends (.statement scope one) s (.ok result) t → result.any Value.isReturned = false →
      Part (.statements scope last (one :: rest)) s (.statements scope result rest) t
  | body {scope block s} : Part (.body scope block) s (.statements scope none block) s

/-- Carrying out one task comes to another. -/
inductive Reaches : Task → State → Task → State → Prop
  | refl (task : Task) (s : State) : Reaches task s task s
  | step {a b c : Task} {s t u : State} : Part a s b t → Reaches b t c u → Reaches a s c u

theorem Reaches.trans {a b c : Task} {s t u : State} (first : Reaches a s b t)
    (second : Reaches b t c u) : Reaches a s c u := by
  induction first with
  | refl => exact second
  | step part _ ih => exact .step part (ih second)

/-! ## Sessions -/

/-- The programs have run, one after another, from the initial state to `s`. -/
inductive Ran : List Program → State → Prop
  | nil : Ran [] .initial
  | snoc {programs : List Program} {program : Program} {s s' : State} {n : Nat}
      {result : Option Value} : Ran programs s →
      program.run n State.root s = some (result, s') → Ran (programs ++ [program]) s'

/-- In the session of the programs, `program` is run in the state `s`. -/
def Runs (programs : List Program) (program : Program) (s : State) : Prop :=
  ∃ before after, programs = before ++ program :: after ∧ Ran before s

/-- The session of the programs comes to the task in the state `t`. -/
def Meets (programs : List Program) (task : Task) (t : State) : Prop :=
  ∃ program s, Runs programs program s ∧ Reaches (.body State.root program) s task t

theorem Meets.reaches {programs : List Program} {a b : Task} {s t : State}
    (met : Meets programs a s) (reached : Reaches a s b t) : Meets programs b t := by
  rcases met with ⟨program, start, runs, before⟩
  exact ⟨program, start, runs, before.trans reached⟩

theorem Runs.append {before : List Program} {program : Program} {s : State}
    (runs : Runs before program s) (after : List Program) : Runs (before ++ after) program s := by
  rcases runs with ⟨first, rest, rfl, ran⟩
  exact ⟨first, rest ++ after, by simp, ran⟩

theorem Meets.append {before : List Program} {task : Task} {s : State} (met : Meets before task s)
    (after : List Program) : Meets (before ++ after) task s := by
  rcases met with ⟨program, start, runs, reached⟩
  exact ⟨program, start, runs.append after, reached⟩

end Script
