import Script.Proofs.Discipline.Keeps
import Script.Proofs.Eval.Order

/-!
# Returns in disciplined programs

In a session of disciplined programs no value that is taken for an ordinary one is marked: neither an
operand, an argument or an element, nor a binding or a result. A `return` ends the call it stands in:
what is returned is the value of the call, and nothing else of the body is carried out.

Main statement: `Program.orderlyReturns`.
-/

namespace Script

/-! ## Disciplined tasks -/

/-- The task belongs to a disciplined program and has fit values at hand. With `leaves`, a `return`
in it may leave it. -/
def Task.Disciplined (leaves : Bool) : Task → Prop
  | .expr _ e => e.disciplined leaves = true
  | .all _ es => disciplinedList es = true
  | .pairs _ table ps => (∀ p ∈ table, p.2.fit = true) ∧ disciplinedPairs ps = true
  | .statement _ one => one.disciplined leaves = true
  | .statements _ last block =>
    (∀ v ∈ last, v.settled leaves = true) ∧ disciplinedBlock leaves block = true
  | .body _ block => disciplinedBlock true block = true

/-- What such a task may give. -/
def Task.Settles (leaves : Bool) : (task : Task) → task.Result → Prop
  | .expr .., v => v.settled leaves = true
  | .all .., vs => ∀ v ∈ vs, v.fit = true
  | .pairs .., table => ∀ p ∈ table, p.2.fit = true
  | .statement .., result | .statements .., result => ∀ v ∈ result, v.settled leaves = true
  | .body .., result => ∀ v ∈ result, v.settled true = true

section

variable {a b c : Task} {s t u : State} {leaves : Bool}

theorem Task.Disciplined.settles {r : Except Fault a.Result} (h : a.Disciplined leaves)
    (fit : s.Fit) (ends : Ends a s r t) : t.Fit ∧ ∀ x, r = .ok x → a.Settles leaves x := by
  rcases ends with ⟨n, ends⟩
  have sound := Expr.eval_disciplined n
  cases a with
  | expr scope e => exact sound scope e leaves s h fit r t ends
  | all scope es => exact evalAll_upholds sound scope h fit r t ends
  | pairs scope table ps => exact evalPairs_upholds sound scope h.2 h.1 fit r t ends
  | statement scope one => exact Statement.step_upholds sound scope h fit r t ends
  | statements scope last block => exact Statement.stepAll_upholds sound scope h.2 h.1 fit r t ends
  | body scope block =>
    have none : ∀ v ∈ (none : Option Value), v.settled true = true := nofun
    exact Statement.stepAll_upholds sound scope h none fit r t ends

/-- An expression that may not be left gives a fit value. -/
theorem Expr.ends_fit {scope : ScopeId} {e : Expr} {v : Value} (h : e.disciplined false = true)
    (fit : s.Fit) (ends : Ends (.expr scope e) s (.ok v) t) : t.Fit ∧ v.fit = true := by
  have whole : (Task.expr scope e).Disciplined false := h
  rcases whole.settles fit ends with ⟨fit', settled⟩
  exact ⟨fit', v.settled_false ▸ settled v rfl⟩

/-- What is not marked does not leave. -/
theorem Task.Settles.not_leaves {x : a.Result} {v : Value} (h : a.Settles false x)
    (other : a.isBody = false) : ¬ a.Leaves x v := by
  intro leaves
  cases a with
  | expr scope e =>
    cases leaves
    cases h
  | statement scope one | statements scope last block =>
    cases leaves
    cases h _ rfl
  | all | pairs => cases leaves
  | body => cases other

/-- A part may be left only if it is one that hands its value on. -/
theorem Part.disciplined (part : Part a s b t) (h : a.Disciplined leaves) (fit : s.Fit) :
    t.Fit ∧ ∃ inner, b.Disciplined inner ∧ (inner = true → Hands a s b t) := by
  cases part with
  | operand => exact ⟨fit, false, h, nofun⟩
  | left => exact ⟨fit, false, (Bool.and_eq_true_iff.1 h).1, nofun⟩
  | right ends =>
    rcases Bool.and_eq_true_iff.1 h with ⟨first, second⟩
    exact ⟨(Expr.ends_fit first fit ends).1, false, second, nofun⟩
  | test => exact ⟨fit, false, (Expr.disciplined_cond_iff.1 h).1, nofun⟩
  | yes ends truthy =>
    rcases Expr.disciplined_cond_iff.1 h with ⟨tested, branch, -⟩
    exact ⟨(Expr.ends_fit tested fit ends).1, leaves, ⟨nofun, branch⟩, fun _ => .yes ends truthy⟩
  | no ends falsy =>
    rcases Expr.disciplined_cond_iff.1 h with ⟨tested, -, other⟩
    exact ⟨(Expr.ends_fit tested fit ends).1, leaves, ⟨nofun, other _ rfl⟩, fun _ => .no ends falsy⟩
  | elements => exact ⟨fit, false, h, nofun⟩
  | collection => exact ⟨fit, false, (Bool.and_eq_true_iff.1 h).1, nofun⟩
  | position ends =>
    rcases Bool.and_eq_true_iff.1 h with ⟨first, second⟩
    exact ⟨(Expr.ends_fit first fit ends).1, false, second, nofun⟩
  | hash => exact ⟨fit, false, ⟨List.forall_mem_nil _, h⟩, nofun⟩
  | callee => exact ⟨fit, false, (Bool.and_eq_true_iff.1 h).1, nofun⟩
  | arguments ends _ =>
    rcases Bool.and_eq_true_iff.1 h with ⟨callee, given⟩
    exact ⟨(Expr.ends_fit callee fit ends).1, false, given, nofun⟩
  -- A function that is called is disciplined because it is fit.
  | @call scope f args _ id closure _ vs _ ends ends' =>
    rcases Bool.and_eq_true_iff.1 h with ⟨callee, given⟩
    rcases Expr.ends_fit callee fit ends with ⟨fit', whole⟩
    have list : (Task.all scope args).Disciplined false := given
    rcases list.settles fit' ends' with ⟨fit'', values⟩
    exact ⟨fit''.frame rfl (values vs rfl), false, whole, nofun⟩
  | first => exact ⟨fit, false, (Bool.and_eq_true_iff.1 h).1, nofun⟩
  | others ends =>
    rcases Bool.and_eq_true_iff.1 h with ⟨first, more⟩
    exact ⟨(Expr.ends_fit first fit ends).1, false, more, nofun⟩
  | key =>
    rcases disciplinedPairs_cons_iff.1 h.2 with ⟨first, -, -⟩
    exact ⟨fit, false, first, nofun⟩
  | value ends _ =>
    rcases disciplinedPairs_cons_iff.1 h.2 with ⟨first, second, -⟩
    exact ⟨(Expr.ends_fit first fit ends).1, false, second, nofun⟩
  | morePairs ends _ ends' =>
    rcases disciplinedPairs_cons_iff.1 h.2 with ⟨first, second, others⟩
    rcases Expr.ends_fit second (Expr.ends_fit first fit ends).1 ends' with ⟨fit', value⟩
    refine ⟨fit', false, ⟨fun p here => ?_, others⟩, nofun⟩
    rcases Table.mem_insert here with rfl | old
    · exact value
    · exact h.1 p old
  | @expr scope one _ =>
    cases one with
    | bind x value => exact ⟨fit, leaves, h, fun _ => .bind⟩
    | leave value => exact ⟨fit, false, (Bool.and_eq_true_iff.1 h).2, nofun⟩
    | expr value => exact ⟨fit, leaves, h, fun _ => .expr⟩
  | statement =>
    rcases h with ⟨-, h⟩
    exact ⟨fit, leaves, (Bool.and_eq_true_iff.1 h).1, fun _ => .statement⟩
  | @statements scope last one rest _ result _ ends unmarked =>
    rcases h with ⟨-, h⟩
    rcases Bool.and_eq_true_iff.1 h with ⟨first, more⟩
    have statement : (Task.statement scope one).Disciplined leaves := first
    rcases statement.settles fit ends with ⟨fit', settled⟩
    exact ⟨fit', leaves, ⟨settled result rfl, more⟩, fun _ => .statements ends unmarked⟩
  | body =>
    -- The statements of a body may be left, whatever may be left around the call.
    exact ⟨fit, true, ⟨nofun, h⟩, fun _ => .body⟩

theorem Within.disciplined (within : Within a s b t) (h : a.Disciplined leaves) (fit : s.Fit) :
    t.Fit ∧ ∃ inner, b.Disciplined inner := by
  induction within generalizing leaves with
  | refl => exact ⟨fit, leaves, h⟩
  | step part _ _ ih =>
    rcases part.disciplined h fit with ⟨fit', inner, h', -⟩
    exact ih h' fit'

theorem Reaches.disciplined (reached : Reaches a s b t) (h : a.Disciplined leaves) (fit : s.Fit) :
    t.Fit ∧ ∃ inner, b.Disciplined inner := by
  induction reached generalizing leaves with
  | refl => exact ⟨fit, leaves, h⟩
  | step part _ ih =>
    rcases part.disciplined h fit with ⟨fit', inner, h', -⟩
    exact ih h' fit'

/-! ## Leaving a body -/

/-- A part whose value is on its way out hands it to the task around it. -/
theorem Part.hands {v : Value} {x : b.Result} (part : Part a s b t) (h : a.Disciplined leaves)
    (fit : s.Fit) (other : b.isBody = false) (ends : Ends b t (.ok x) u) (out : b.Leaves x v) :
    Hands a s b t := by
  rcases part.disciplined h fit with ⟨fit', inner, h', hands⟩
  refine hands ?_
  -- A part that may not be left would not give a marked value.
  cases inner with
  | true => rfl
  | false => exact absurd out (((h'.settles fit' ends).2 x rfl).not_leaves other)

/-- What is returned somewhere in a body is on its way out of all the tasks around it. -/
theorem Within.comes_out {scope : ScopeId} {value : Expr} {v : Value} (within : Within a s b t)
    (last : b = .statement scope (.leave value)) (h : a.Disciplined leaves) (fit : s.Fit)
    (ends : Ends (.expr scope value) t (.ok v) u) : ∃ x, Ends a s (.ok x) u ∧ a.Leaves x v := by
  induction within generalizing leaves with
  | refl =>
    subst last
    rcases ends with ⟨n, ends⟩
    exact ⟨some (.returned v), ⟨n, Eval.bind_of_ok ends⟩, rfl⟩
  | step part other _ ih =>
    rcases part.disciplined h fit with ⟨fit', inner, h', -⟩
    rcases ih last h' fit' ends with ⟨x, ends', out⟩
    exact (part.hands h fit other ends' out).leaves ⟨x, ends', out⟩

/-- Before a later part begins, no value is on its way out. -/
theorem Later.not_leaves (later : Later a s b t c u) (hands : Hands a s b t) {x : b.Result}
    {v : Value} {w : State} (ends : Ends b t (.ok x) w) : ¬ b.Leaves x v := by
  intro out
  cases later with
  -- Only a statement in front of others can both be left and be followed by something.
  | statements ends' unmarked =>
    cases out
    rcases ends.unique ends' with ⟨same, -⟩
    cases same
    cases unmarked
  | _ => cases hands

theorem nothing_follows {scope : ScopeId} {value : Expr} {v : Value} {w : State}
    (h : a.Disciplined leaves) (fit : s.Fit) (ends : Ends (.expr scope value) t (.ok v) w) :
    ¬ Follows a s (.statement scope (.leave value)) t c u := by
  intro follows
  rcases follows with ⟨d, x, b', t', within, later, within'⟩
  rcases within.disciplined h fit with ⟨fit', inner, h'⟩
  rcases later.parts with ⟨part, -⟩
  rcases part.disciplined h' fit' with ⟨fit'', inner', h'', -⟩
  rcases within'.comes_out rfl h'' fit'' ends with ⟨y, ends', out⟩
  -- The value on its way out is handed on, so what comes later does not begin.
  have other : b'.isBody = false := by
    cases later <;> rfl
  exact later.not_leaves (part.hands h' fit' other ends' out) ends' out

end

/-- A call ends as the body does, with the value that leaves it. -/
theorem Ends.call {scope : ScopeId} {f : Expr} {args : List Expr} {i : ScopeId} {block : Block}
    {s t u : State} {v : Value} (part : Part (.expr scope (.call f args)) s (.body i block) t)
    (ends : Ends (.body i block) t (.ok (some (.returned v))) u) :
    Ends (.expr scope (.call f args)) s (.ok v) u := by
  cases part with
  | call callee given =>
    rcases callee.allTogether given ends with ⟨n, first, second, third⟩
    have body := Eval.bind_of_ok (f := fun result => pure (result.getD .null)) third
    refine ⟨n + 1, ?_⟩
    exact (Eval.bind_of_ok first).trans ((Eval.bind_of_ok second).trans (Eval.bind_of_ok body))

/-! ## Values that are taken for ordinary ones -/

/-- The task takes the value of a part as an operand, a test, an element, a key, an argument or
something else that it does not just hand on. -/
inductive Takes : Task → State → Value → Prop
  | operand {scope op a s v t} : Ends (.expr scope a) s (.ok v) t →
      Takes (.expr scope (.unary op a)) s v
  | left {scope op a b s v t} : Ends (.expr scope a) s (.ok v) t →
      Takes (.expr scope (.binary op a b)) s v
  | right {scope op a b s v t w u} : Ends (.expr scope a) s (.ok v) t →
      Ends (.expr scope b) t (.ok w) u → Takes (.expr scope (.binary op a b)) s w
  | test {scope test yes no s v t} : Ends (.expr scope test) s (.ok v) t →
      Takes (.expr scope (.cond test yes no)) s v
  | element {scope es s vs t v} : Ends (.all scope es) s (.ok vs) t → v ∈ vs →
      Takes (.expr scope (.array es)) s v
  | collection {scope a i s v t} : Ends (.expr scope a) s (.ok v) t →
      Takes (.expr scope (.index a i)) s v
  | position {scope a i s v t w u} : Ends (.expr scope a) s (.ok v) t →
      Ends (.expr scope i) t (.ok w) u → Takes (.expr scope (.index a i)) s w
  | callee {scope f args s v t} : Ends (.expr scope f) s (.ok v) t →
      Takes (.expr scope (.call f args)) s v
  | argument {scope f args s v t vs u w} : Ends (.expr scope f) s (.ok v) t →
      Ends (.all scope args) t (.ok vs) u → w ∈ vs → Takes (.expr scope (.call f args)) s w
  | key {scope table key value ps s v t} : Ends (.expr scope key) s (.ok v) t →
      Takes (.pairs scope table ((key, value) :: ps)) s v
  | value {scope table key value ps s v t w u} : Ends (.expr scope key) s (.ok v) t →
      Ends (.expr scope value) t (.ok w) u → Takes (.pairs scope table ((key, value) :: ps)) s w
  | returned {scope value s v t} : Ends (.expr scope value) s (.ok v) t →
      Takes (.statement scope (.leave value)) s v

theorem Takes.fit {task : Task} {s : State} {v : Value} {leaves : Bool} (takes : Takes task s v)
    (h : task.Disciplined leaves) (fit : s.Fit) : v.fit = true := by
  have list {scope : ScopeId} {es : List Expr} {t u : State} {vs : List Value}
      (h : disciplinedList es = true) (fit : t.Fit) (ends : Ends (.all scope es) t (.ok vs) u) :
      ∀ v ∈ vs, v.fit = true := by
    have whole : (Task.all scope es).Disciplined false := h
    exact (whole.settles fit ends).2 vs rfl
  cases takes with
  | operand ends => exact (Expr.ends_fit h fit ends).2
  | left ends | collection ends | callee ends =>
    exact (Expr.ends_fit (Bool.and_eq_true_iff.1 h).1 fit ends).2
  | right ends ends' | position ends ends' =>
    rcases Bool.and_eq_true_iff.1 h with ⟨first, second⟩
    exact (Expr.ends_fit second (Expr.ends_fit first fit ends).1 ends').2
  | test ends => exact (Expr.ends_fit (Expr.disciplined_cond_iff.1 h).1 fit ends).2
  | element ends here => exact list h fit ends v here
  | argument ends ends' here =>
    rcases Bool.and_eq_true_iff.1 h with ⟨first, second⟩
    exact list second (Expr.ends_fit first fit ends).1 ends' v here
  | key ends => exact (Expr.ends_fit (disciplinedPairs_cons_iff.1 h.2).1 fit ends).2
  | value ends ends' =>
    rcases disciplinedPairs_cons_iff.1 h.2 with ⟨first, second, -⟩
    exact (Expr.ends_fit second (Expr.ends_fit first fit ends).1 ends').2
  | returned ends => exact (Expr.ends_fit (Bool.and_eq_true_iff.1 h).2 fit ends).2

/-! ## Sessions -/

/-- In the session of the programs a return marker stands around nothing but the value of a statement
or a block on its way out, and a `return` ends the call that it stands in. -/
structure OrderlyReturns (programs : List Program) : Prop where
  /-- No binding of any scope holds a marker, neither when a task begins nor when it ends. -/
  bindings : ∀ task s, Meets programs task s →
    s.Clean ∧ ∀ r t, Ends task s r t → t.Clean
  /-- No value that is taken for an ordinary one holds a marker. -/
  taken : ∀ task s v, Meets programs task s → Takes task s v → v.free = true
  /-- No array, no hash, no call and no other expression but a condition gives one. -/
  values : ∀ scope e s v t, Meets programs (.expr scope e) s → e.isCond = false →
    Ends (.expr scope e) s (.ok v) t → v.free = true
  /-- No program gives one. -/
  results : ∀ program s n v s', Runs programs program s →
    program.run n State.root s = some (some v, s') → v.free = true
  /-- A value that is returned in the body of a function is the value of the call, and nothing of the
  body is carried out behind the `return`. -/
  returns : ∀ scope f args s i block t value u v u', Meets programs (.expr scope (.call f args)) s →
    Part (.expr scope (.call f args)) s (.body i block) t →
    Within (.body i block) t (.statement i (.leave value)) u →
    Ends (.expr i value) u (.ok v) u' →
    v.free = true ∧ Ends (.expr scope (.call f args)) s (.ok v) u' ∧
      ∀ task w, ¬ Follows (.body i block) t (.statement i (.leave value)) u task w

section

variable {programs : List Program} (every : ∀ p ∈ programs, p.disciplined = true)

include every

theorem Ran.fit {s : State} (ran : Ran programs s) : s.Fit := by
  induction ran with
  | nil => exact State.Bound.initial
  | @snoc programs program s s' n result _ ends ih =>
    have start := ih fun p here => every p (List.mem_append_left _ here)
    have whole : (Task.body State.root program).Disciplined true :=
      every program (List.mem_append_right _ List.mem_cons_self)
    rcases Program.run_ends ends with ⟨r, body, -⟩ | ⟨e, body, -⟩
    · exact (whole.settles start body).1
    · exact (whole.settles start body).1

theorem Runs.disciplined {program : Program} {s : State} (runs : Runs programs program s) :
    s.Fit ∧ (Task.body State.root program).Disciplined true := by
  rcases runs with ⟨before, after, rfl, ran⟩
  have earlier : ∀ p ∈ before, p.disciplined = true := fun p here =>
    every p (List.mem_append_left _ here)
  exact ⟨ran.fit earlier, every program (List.mem_append_right _ List.mem_cons_self)⟩

theorem Meets.disciplined {task : Task} {s : State} (met : Meets programs task s) :
    s.Fit ∧ ∃ leaves, task.Disciplined leaves := by
  rcases met with ⟨program, start, runs, reached⟩
  rcases runs.disciplined every with ⟨fit, whole⟩
  exact reached.disciplined whole fit

end

/-- In every session of disciplined programs returns are orderly. -/
theorem Program.orderlyReturns {programs : List Program}
    (every : ∀ p ∈ programs, p.disciplined = true) : OrderlyReturns programs where
  bindings task s met := by
    rcases met.disciplined every with ⟨fit, leaves, h⟩
    exact ⟨fit.clean, fun r t ends => (h.settles fit ends).1.clean⟩
  taken task s v met takes := by
    rcases met.disciplined every with ⟨fit, leaves, h⟩
    exact v.free_of_fit (takes.fit h fit)
  values scope e s v t met other ends := by
    rcases met.disciplined every with ⟨fit, leaves, h⟩
    exact v.free_of_fit (Expr.ends_fit (Expr.disciplined_of_isCond other h) fit ends).2
  results program s n v s' runs ends := by
    rcases runs.disciplined every with ⟨fit, whole⟩
    rcases Program.run_ends ends with ⟨r, body, gives⟩ | ⟨e, -, gives⟩
    · rcases Option.map_eq_some_iff.1 gives.symm with ⟨w, rfl, rfl⟩
      have settled := (whole.settles fit body).2 _ rfl w rfl
      exact w.unwrap.free_of_fit (Value.fit_unwrap settled)
    · cases gives
      rfl
  returns scope f args s i block t value u v u' met call within ends := by
    rcases met.disciplined every with ⟨fit, leaves, h⟩
    rcases call.disciplined h fit with ⟨fit', inner, body, -⟩
    rcases within.disciplined body fit' with ⟨fit'', inner', last⟩
    rcases within.comes_out rfl body fit' ends with ⟨x, ends', out⟩
    cases out
    have whole := (Takes.returned ends).fit last fit''
    exact ⟨v.free_of_fit whole, ends'.call call, fun task w => nothing_follows body fit' ends⟩

/-- For example, a function that is left from a condition which is the value of a binding. -/
theorem Program.orderlyReturns_early :
    let body : Block := [.bind "x" (.cond (.bool true) [.leave (.int 1)] none), .expr (.int 2)]
    let call : Expr := .call (.fn [] body) []
    (∀ p ∈ [[.expr call]], Program.disciplined p = true) ∧ OrderlyReturns [[.expr call]] ∧
      ∃ t, Ends (.expr State.root call) State.initial (.ok (.int 1)) t := by
  intro body call
  have disciplined : ∀ p ∈ [[.expr call]], Program.disciplined p = true := by decide
  have orderly := Program.orderlyReturns disciplined
  -- The program comes to the call, and the call to its body.
  have runs : Runs [[.expr call]] [.expr call] State.initial := ⟨[], [], rfl, .nil⟩
  have met : Meets [[.expr call]] (.expr State.root call) State.initial :=
    ⟨_, _, runs, .step .body (.step .statement (.step .expr (.refl _ _)))⟩
  have made : Ends (.expr State.root (.fn [] body)) State.initial
      (.ok (.function 0 ⟨[], body, State.root⟩)) State.initial.useFresh := ⟨1, rfl⟩
  let inside : State := (State.initial.useFresh.addScope (Closure.frame ⟨[], body, State.root⟩ [])).2
  have none : Ends (.all State.root []) State.initial.useFresh (.ok []) State.initial.useFresh :=
    ⟨0, rfl⟩
  have entered : Part (.expr State.root call) State.initial (.body 1 body) inside := .call made none
  -- In the body the branch is taken, and what is returned there is an integer.
  have true : Ends (.expr 1 (.bool true)) inside (.ok (.bool true)) inside := ⟨1, rfl⟩
  have value : Ends (.expr 1 (.int 1)) inside (.ok (.int 1)) inside := ⟨1, rfl⟩
  have within : Within (.body 1 body) inside (.statement 1 (.leave (.int 1))) inside :=
    .step .body rfl (.step .statement rfl (.step .expr rfl (.step (.yes true rfl) rfl
      (.step .statement rfl (.refl _ _)))))
  rcases orderly.returns _ _ _ _ _ _ _ _ _ _ _ met entered within value with ⟨-, ends, -⟩
  exact ⟨disciplined, orderly, _, ends⟩

end Script
