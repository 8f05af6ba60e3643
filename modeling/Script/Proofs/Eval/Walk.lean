import Script.Proofs.Eval.Failure
import Script.Proofs.Eval.Rules

/-!
# What is called by a name on the way

`Applies x a s c`: on the way of the task `a`, begun in `s`, the call `c` is made by the name `x`. What
goes on inside such a call is not looked into.

`Walk x a s r t log` is the end of a task together with a list of exactly these calls. It has one rule
for each construct, which puts the list together from those of the parts.
-/

namespace Script

/-! ## Calls by a name -/

/-- A call, with the scope and the state it is made in. -/
structure Application where
  scope : ScopeId
  callee : Value
  args : List Value
  state : State

/-- `b` is the body of a function that `a` calls by the name `x`. -/
def Task.Enters (x : String) (a b : Task) : Prop :=
  b.isBody = true ∧ ∃ scope args, a = .expr scope (.call (.name x) args)

/-- Carrying out one task comes to another without entering what is called by the name `x`. -/
inductive ReachesOutside (x : String) : Task → State → Task → State → Prop
  | refl (task : Task) (s : State) : ReachesOutside x task s task s
  | step {a b c : Task} {s t u : State} : Part a s b t → ¬ a.Enters x b →
      ReachesOutside x b t c u → ReachesOutside x a s c u

/-- On the way of the task the call is made by the name `x`, outside other calls by this name. -/
def Applies (x : String) (a : Task) (s : State) (c : Application) : Prop :=
  ∃ args t u, ReachesOutside x a s (.expr c.scope (.call (.name x) args)) t ∧
    Ends (.expr c.scope (.name x)) t (.ok c.callee) u ∧ Ends (.all c.scope args) u (.ok c.args) c.state

/-- The task ends with the outcome `r` in `t`, and the calls by the name `x` on its way are those in
the log. -/
structure Walk (x : String) (a : Task) (s : State) (r : Except Fault a.Result) (t : State)
    (log : List Application) : Prop where
  ends : Ends a s r t
  calls : ∀ c, Applies x a s c ↔ c ∈ log

namespace Walk

variable {x : String} {scope : ScopeId} {s t u w : State}
  {log log' log'' : List Application}

/-- A task that is no call by the name has the calls of its parts. -/
theorem applies_iff {a : Task} (other : ∀ i args, a ≠ .expr i (.call (.name x) args))
    (c : Application) : Applies x a s c ↔ ∃ b v, Part a s b v ∧ Applies x b v c := by
  constructor
  · rintro ⟨args, v, v', reached, callee, given⟩
    cases reached with
    | refl => exact absurd rfl (other _ args)
    | step part _ reached => exact ⟨_, _, part, args, v, v', reached, callee, given⟩
  · rintro ⟨b, v, part, args, v', v'', reached, callee, given⟩
    exact ⟨args, v', v'', .step part (fun ⟨_, i, args, same⟩ => other i args same) reached, callee,
      given⟩

/-- The tasks are parts of the task, and the log lists the calls of all of them. -/
inductive Collected (x : String) (a : Task) (s : State) :
    List (Task × State) → List Application → Prop
  | nil : Collected x a s [] []
  | cons {b : Task} {v : State} {parts : List (Task × State)} {log log' : List Application} :
      Part a s b v → (∀ c, Applies x b v c ↔ c ∈ log) → Collected x a s parts log' →
      Collected x a s ((b, v) :: parts) (log ++ log')

theorem Collected.applies_iff {a : Task} {parts : List (Task × State)}
    (collected : Collected x a s parts log) (c : Application) :
    (∃ b v, (b, v) ∈ parts ∧ Part a s b v ∧ Applies x b v c) ↔ c ∈ log := by
  induction collected with
  | nil => simp
  | cons part calls _ ih =>
    rw [List.mem_append, ← calls c, ← ih]
    constructor
    · rintro ⟨b, v, mem, there, applied⟩
      rcases List.mem_cons.1 mem with same | mem
      · cases same
        exact .inl applied
      · exact .inr ⟨b, v, mem, there, applied⟩
    · rintro (applied | ⟨b, v, mem, there, applied⟩)
      · exact ⟨_, _, List.mem_cons_self, part, applied⟩
      · exact ⟨b, v, List.mem_cons_of_mem _ mem, there, applied⟩

/-- If all parts and the calls of each are known, so are the calls of the whole. -/
theorem calls_of_parts {a : Task} {parts : List (Task × State)}
    (other : ∀ i args, a ≠ .expr i (.call (.name x) args)) (collected : Collected x a s parts log)
    (all : ∀ b v, Part a s b v → (b, v) ∈ parts) (c : Application) : Applies x a s c ↔ c ∈ log := by
  rw [applies_iff other, ← collected.applies_iff c]
  constructor
  · exact fun ⟨b, v, part, applied⟩ => ⟨b, v, all b v part, part, applied⟩
  · exact fun ⟨b, v, _, part, applied⟩ => ⟨b, v, part, applied⟩

theorem calls_of_none {a : Task} (other : ∀ i args, a ≠ .expr i (.call (.name x) args))
    (none : ∀ b v, ¬ Part a s b v) (c : Application) : Applies x a s c ↔ c ∈ [] :=
  calls_of_parts other .nil (fun b v part => absurd part (none b v)) c

theorem calls_of_one {a b : Task} {v : State} (other : ∀ i args, a ≠ .expr i (.call (.name x) args))
    (part : Part a s b v) (calls : ∀ c, Applies x b v c ↔ c ∈ log)
    (all : ∀ b' v', Part a s b' v' → (b', v') ∈ [(b, v)]) (c : Application) :
    Applies x a s c ↔ c ∈ log := by
  simpa using calls_of_parts other (.cons part calls .nil) all c

theorem calls_of_two {a b b' : Task} {v v' : State}
    (other : ∀ i args, a ≠ .expr i (.call (.name x) args))
    (part : Part a s b v) (calls : ∀ c, Applies x b v c ↔ c ∈ log)
    (part' : Part a s b' v') (calls' : ∀ c, Applies x b' v' c ↔ c ∈ log')
    (all : ∀ d z, Part a s d z → (d, z) ∈ [(b, v), (b', v')]) (c : Application) :
    Applies x a s c ↔ c ∈ log ++ log' := by
  simpa using calls_of_parts other (.cons part calls (.cons part' calls' .nil)) all c

/-! ## Expressions -/

section

variable {a b e f test : Expr} {es args : List Expr} {v g : Value} {vs : List Value}

theorem name {y : String} (names : evalName scope y s = some (.ok v, s)) :
    Walk x (.expr scope (.name y)) s (.ok v) s [] where
  ends := .name names
  calls := calls_of_none nofun nofun

theorem int (n : Int64) : Walk x (.expr scope (.int n)) s (.ok (.int n)) s [] where
  ends := ⟨1, rfl⟩
  calls := calls_of_none nofun nofun

theorem fn (params : List String) (body : Block) :
    Walk x (.expr scope (.fn params body)) s (.ok (.function s.fresh ⟨params, body, scope⟩))
      s.useFresh [] where
  ends := ⟨1, rfl⟩
  calls := calls_of_none nofun nofun

theorem binary {op : BinaryOp} {v' : Value} (left : Walk x (.expr scope a) s (.ok v) t log)
    (right : Walk x (.expr scope b) t (.ok v') u log') :
    Walk x (.expr scope (.binary op a b)) s (op.apply v v') u (log ++ log') where
  ends := left.ends.binary right.ends
  calls := by
    refine calls_of_two nofun .left left.calls (.right left.ends) right.calls fun d z part => ?_
    cases part with
    | left => simp
    | right ends =>
      cases (left.ends.unique ends).2
      simp

theorem array (elements : Walk x (.all scope es) s (.ok vs) t log) :
    Walk x (.expr scope (.array es)) s (.ok (.array t.fresh vs)) t.useFresh log where
  ends := elements.ends.array
  calls := by
    refine calls_of_one nofun .elements elements.calls fun d z part => ?_
    cases part with
    | elements => simp

section

variable {ys ns : Block} {r : Except Fault (Option Value)}

theorem yes {other : Option Block} (tested : Walk x (.expr scope test) s (.ok v) t log)
    (truthy : v.isTruthy = true) (branch : Walk x (.statements scope none ys) t r u log') :
    Walk x (.expr scope (.cond test ys other)) s (r.map (·.getD .null)) u (log ++ log') where
  ends := tested.ends.yes truthy branch.ends
  calls := by
    refine calls_of_two nofun .test tested.calls (.yes tested.ends truthy) branch.calls
      fun d z part => ?_
    cases part with
    | test => simp
    | yes ends =>
      cases (tested.ends.unique ends).2
      simp
    | no ends falsy =>
      cases (tested.ends.unique ends).1
      simp [truthy] at falsy

theorem no (tested : Walk x (.expr scope test) s (.ok v) t log) (falsy : v.isTruthy = false)
    (branch : Walk x (.statements scope none ns) t r u log') :
    Walk x (.expr scope (.cond test ys (some ns))) s (r.map (·.getD .null)) u (log ++ log') where
  ends := tested.ends.no falsy branch.ends
  calls := by
    refine calls_of_two nofun .test tested.calls (.no tested.ends falsy) branch.calls
      fun d z part => ?_
    cases part with
    | test => simp
    | yes ends truthy =>
      cases (tested.ends.unique ends).1
      simp [falsy] at truthy
    | no ends =>
      cases (tested.ends.unique ends).2
      simp

end

/-! ## Calls -/

theorem other_callee (other : f ≠ .name x) (i : ScopeId) (args' : List Expr) :
    Task.expr scope (.call f args) ≠ .expr i (.call (.name x) args') := by
  intro same
  cases same
  exact other rfl

/-- A call of a function by another name: its body is entered. -/
theorem call {id : ObjectId} {closure : Closure} {r : Except Fault (Option Value)}
    (other : f ≠ .name x) (callee : Walk x (.expr scope f) s (.ok (.function id closure)) t log)
    (given : Walk x (.all scope args) t (.ok vs) u log')
    (body : Walk x (.body u.scopes.size closure.body) (u.addScope (closure.frame vs)).2 r w log'') :
    Walk x (.expr scope (.call f args)) s
      (r.map fun result => (result.getD .null).unwrap) w (log ++ log' ++ log'') where
  ends := callee.ends.applied rfl given.ends (.function body.ends)
  calls := by
    intro c
    have collected := Collected.cons .callee callee.calls
      (.cons (.arguments callee.ends rfl) given.calls
        (.cons (.call callee.ends given.ends) body.calls .nil))
    rw [List.append_assoc, ← List.append_nil log'']
    refine calls_of_parts (other_callee other) collected (fun d z part => ?_) c
    cases part with
    | callee => simp
    | arguments ends =>
      cases (callee.ends.unique ends).2
      simp
    | call ends ends' =>
      rcases callee.ends.unique ends with ⟨⟨⟩, ⟨⟩⟩
      rcases given.ends.unique ends' with ⟨⟨⟩, ⟨⟩⟩
      simp

/-- A call of a built-in function by another name has no body. -/
theorem builtin {b : Builtin} {r : Except Fault Value} (other : f ≠ .name x)
    (callee : Walk x (.expr scope f) s (.ok (.builtin b)) t log)
    (given : Walk x (.all scope args) t (.ok vs) u log') (called : b.call vs u = some (r, w)) :
    Walk x (.expr scope (.call f args)) s r w (log ++ log') where
  ends := callee.ends.applied rfl given.ends (.builtin called)
  calls := by
    refine calls_of_two (other_callee other) .callee callee.calls (.arguments callee.ends rfl)
      given.calls fun d z part => ?_
    cases part with
    | callee => simp
    | arguments ends =>
      cases (callee.ends.unique ends).2
      simp
    | call ends => cases (callee.ends.unique ends).1

/-- If an argument fails, nothing is called. -/
theorem argument {fault : Fault} (other : f ≠ .name x)
    (callee : Walk x (.expr scope f) s (.ok g) t log) (callable : g.isCallable = true)
    (given : Walk x (.all scope args) t (.error fault) u log') :
    Walk x (.expr scope (.call f args)) s (.error fault) u (log ++ log') where
  ends := (Part.arguments callee.ends callable).fails given.ends
  calls := by
    refine calls_of_two (other_callee other) .callee callee.calls (.arguments callee.ends callable)
      given.calls fun d z part => ?_
    cases part with
    | callee => simp
    | arguments ends =>
      cases (callee.ends.unique ends).2
      simp
    | call ends ends' =>
      cases (callee.ends.unique ends).2
      exact absurd ends' given.ends.not_ok

/-- A call by the name itself is put behind those among its arguments, and is not entered. -/
theorem named {r : Except Fault Value} (callee : Walk x (.expr scope (.name x)) s (.ok g) t log)
    (callable : g.isCallable = true) (given : Walk x (.all scope args) t (.ok vs) u log')
    (called : g.CallEnds vs u r w) :
    Walk x (.expr scope (.call (.name x) args)) s r w (log ++ log' ++ [⟨scope, g, vs, u⟩]) where
  ends := callee.ends.applied callable given.ends called
  calls := by
    -- This call is not like others: it is itself in the log, and its body is not a part.
    intro c
    simp only [List.mem_append, List.mem_singleton, ← callee.calls c, ← given.calls c]
    constructor
    · rintro ⟨args', v, v', reached, callee', given'⟩
      cases reached with
      | refl =>
        rcases callee.ends.unique callee' with ⟨⟨⟩, ⟨⟩⟩
        rcases given.ends.unique given' with ⟨⟨⟩, ⟨⟩⟩
        exact .inr rfl
      | step part outside reached =>
        cases part with
        | callee => exact .inl (.inl ⟨args', v, v', reached, callee', given'⟩)
        | arguments ends =>
          cases (callee.ends.unique ends).2
          exact .inl (.inr ⟨args', v, v', reached, callee', given'⟩)
        | call => exact absurd ⟨rfl, scope, args, rfl⟩ outside
    · have outside {b : Task} (other : b.isBody = false) :
          ¬ (Task.expr scope (.call (.name x) args)).Enters x b := by
        rintro ⟨body, -⟩
        rw [other] at body
        cases body
      rintro ((⟨args', v, v', reached, ends, ends'⟩ | ⟨args', v, v', reached, ends, ends'⟩) | rfl)
      · exact ⟨args', v, v', .step .callee (outside rfl) reached, ends, ends'⟩
      · exact ⟨args', v, v', .step (.arguments callee.ends callable) (outside rfl) reached, ends,
          ends'⟩
      · exact ⟨args, s, t, .refl _ _, callee.ends, given.ends⟩

/-! ## Lists -/

theorem nil : Walk x (.all scope []) s (.ok []) s [] where
  ends := ⟨0, rfl⟩
  calls := calls_of_none nofun nofun

theorem cons (first : Walk x (.expr scope e) s (.ok v) t log)
    (others : Walk x (.all scope es) t (.ok vs) u log') :
    Walk x (.all scope (e :: es)) s (.ok (v :: vs)) u (log ++ log') where
  ends := first.ends.cons others.ends
  calls := by
    refine calls_of_two nofun .first first.calls (.others first.ends) others.calls fun d z part => ?_
    cases part with
    | first => simp
    | others ends =>
      cases (first.ends.unique ends).2
      simp

theorem first {fault : Fault} (fails : Walk x (.expr scope e) s (.error fault) t log) :
    Walk x (.all scope (e :: es)) s (.error fault) t log where
  ends := Part.first.fails fails.ends
  calls := by
    refine calls_of_one nofun .first fails.calls fun d z part => ?_
    cases part with
    | first => simp
    | others ends => exact absurd ends fails.ends.not_ok

theorem others {fault : Fault} (first : Walk x (.expr scope e) s (.ok v) t log)
    (fails : Walk x (.all scope es) t (.error fault) u log') :
    Walk x (.all scope (e :: es)) s (.error fault) u (log ++ log') where
  ends := (Part.others first.ends).fails fails.ends
  calls := by
    refine calls_of_two nofun .first first.calls (.others first.ends) fails.calls fun d z part => ?_
    cases part with
    | first => simp
    | others ends =>
      cases (first.ends.unique ends).2
      simp

/-! ## Statements -/

theorem exprStatement {r : Except Fault Value} (value : Walk x (.expr scope e) s r t log) :
    Walk x (.statement scope (.expr e)) s (r.map some) t log where
  ends := value.ends.exprStatement
  calls := by
    refine calls_of_one nofun .expr value.calls fun d z part => ?_
    cases part with
    | expr => simp [Statement.value]

theorem bindStatement {y : String} (value : Walk x (.expr scope e) s (.ok v) t log)
    (unmarked : v.isReturned = false) :
    Walk x (.statement scope (.bind y e)) s (.ok none) (t.bind scope y v) log where
  ends := value.ends.bindStatement unmarked
  calls := by
    refine calls_of_one nofun .expr value.calls fun d z part => ?_
    cases part with
    | expr => simp [Statement.value]

end

section

variable {last result : Option Value} {one : Statement} {rest block : Block}
  {r : Except Fault (Option Value)}

theorem no_statements (c : Application) : ¬ Applies x (.statements scope last []) s c := by
  rw [calls_of_none (a := .statements scope last []) nofun nofun c]
  exact List.not_mem_nil

theorem single (only : Walk x (.statement scope one) s r t log) :
    Walk x (.statements scope last [one]) s r t log where
  ends := only.ends.single
  calls := by
    intro c
    rw [applies_iff (a := .statements scope last [one]) nofun, ← only.calls c]
    constructor
    · rintro ⟨_, _, part, inside⟩
      cases part with
      | statement => exact inside
      | statements => exact absurd inside (no_statements c)
    · exact fun inside => ⟨_, _, .statement, inside⟩

theorem following (first : Walk x (.statement scope one) s (.ok result) t log)
    (unmarked : result.any Value.isReturned = false)
    (others : Walk x (.statements scope result rest) t r u log') :
    Walk x (.statements scope last (one :: rest)) s r u (log ++ log') where
  ends := first.ends.following unmarked others.ends
  calls := by
    refine calls_of_two nofun .statement first.calls (.statements first.ends unmarked) others.calls
      fun d z part => ?_
    cases part with
    | statement => simp
    | statements ends =>
      rcases first.ends.unique ends with ⟨⟨⟩, ⟨⟩⟩
      simp

theorem body (statements : Walk x (.statements scope none block) s r t log) :
    Walk x (.body scope block) s r t log where
  ends := statements.ends
  calls := by
    refine calls_of_one nofun .body statements.calls fun d z part => ?_
    cases part with
    | body => simp

end

end Walk

/-! ## Calls of a function -/

/-- While the function is called, the call `c` is made by the name `x`. -/
def Value.Applies (x : String) (callee : Value) (args : List Value) (s : State)
    (c : Application) : Prop :=
  ∃ id closure, callee = .function id closure ∧
    Script.Applies x (.body s.scopes.size closure.body) (s.addScope (closure.frame args)).2 c

end Script
