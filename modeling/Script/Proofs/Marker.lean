import Script.Session
import Script.Program.Equality
import Script.Proofs.Marker.Leak

/-!
# Return markers in a session

The programs of a session never see the marker of a `return`, as long as none of the tasks they come
to leaks it. This is also the only way: `markerHidden_iff` says that `Leaks` lists all places where a
marker shows.

Not every session is so well-behaved. What `return if (true) { return 1 };` gives is marked, since
there are two markers on it and the program takes off one.
-/

namespace Script

/-! ## A leak shows -/

/-- The marker is hidden in the task and in all it comes to. -/
def HiddenThroughout (task : Task) (s : State) : Prop :=
  ∀ task' s', Reaches task s task' s' → Hidden task' s'

namespace HiddenThroughout

variable {task : Task} {scope : ScopeId} {s t u : State} {v w : Value} {vs : List Value}

theorem here (hidden : HiddenThroughout task s) : Hidden task s :=
  hidden task s (.refl task s)

theorem part {a b : Task} (hidden : HiddenThroughout a s) (part : Part a s b t) :
    HiddenThroughout b t :=
  fun c u reached => hidden c u (.step part reached)

theorem passes (hidden : HiddenThroughout task s) {x : task.Result} (ends : Ends task s (.ok x) t) :
    task.Passes x :=
  (hidden.here.finish _ t ends).2

/-- What one step makes of the parts shows no marker. -/
theorem step {e : Expr} {n : Nat} {r : Except Fault Value}
    (hidden : HiddenThroughout (.expr scope e) s)
    (ends : e.step (Expr.eval n) scope s = some (r, t)) :
    Unmarked (Task.expr scope e).Passes r :=
  (hidden.here.finish r t (.of_step ends)).2

/-! ### Operators -/

theorem operand_plain {a : Expr} (hidden : HiddenThroughout (.expr scope (.unary .negate a)) s)
    (ends : Ends (.expr scope a) s (.ok v) t) : v.isReturned = false := by
  rcases ends with ⟨n, ends⟩
  have whole : (Expr.unary .negate a).step (Expr.eval n) scope s =
      some (UnaryOp.negate.apply v, t) :=
    Eval.bind_of_ok ends
  exact (UnaryOp.apply_unmarked_iff (fun _ => Task.passes_of_free) .negate v).1 (hidden.step whole)
    rfl

theorem operands_plain {op : BinaryOp} {a b : Expr}
    (hidden : HiddenThroughout (.expr scope (.binary op a b)) s) (unequal : op ≠ .equal)
    (different : op ≠ .notEqual) (ends : Ends (.expr scope a) s (.ok v) t)
    (ends' : Ends (.expr scope b) t (.ok w) u) : v.isReturned = false ∧ w.isReturned = false := by
  rcases ends.together ends' with ⟨n, ends, ends'⟩
  have whole : (Expr.binary op a b).step (Expr.eval n) scope s = some (op.apply v w, u) :=
    (Eval.bind_of_ok ends).trans (Eval.bind_of_ok ends')
  exact (BinaryOp.apply_unmarked_iff (fun _ => Task.passes_of_free) op v w).1 (hidden.step whole)
    unequal different

theorem index_plain {a i : Expr} (hidden : HiddenThroughout (.expr scope (.index a i)) s)
    (ends : Ends (.expr scope a) s (.ok v) t) (ends' : Ends (.expr scope i) t (.ok w) u) :
    v.isReturned = false ∧ (v.type = .hash → w.isReturned = false) := by
  have tidy := ((hidden.part .collection).passes ends).1
  rcases ends.together ends' with ⟨n, ends, ends'⟩
  have whole : (Expr.index a i).step (Expr.eval n) scope s = some (v.elementAt w, u) :=
    (Eval.bind_of_ok ends).trans (Eval.bind_of_ok ends')
  exact (Value.elementAt_unmarked_iff (fun _ => Task.passes_of_free) tidy w).1 (hidden.step whole)

/-! ### Arrays and hashes -/

theorem element_free {es : List Expr} (hidden : HiddenThroughout (.expr scope (.array es)) s)
    (ends : Ends (.all scope es) s (.ok vs) t) (member : v ∈ vs) : v.free = true := by
  rcases ends with ⟨n, ends⟩
  have whole : (Expr.array es).step (Expr.eval n) scope s =
      some (.ok (.array t.fresh vs), t.useFresh) :=
    Eval.bind_of_ok ends
  exact freeAll_iff.1 (hidden.step whole).1 v member

theorem value_free {ps : List (Expr × Expr)} {table : Table Key Value} {p : Key × Value}
    (hidden : HiddenThroughout (.expr scope (.hash ps)) s)
    (ends : Ends (.pairs scope [] ps) s (.ok table) t) (member : p ∈ table) : p.2.free = true := by
  rcases ends with ⟨n, ends⟩
  have whole : (Expr.hash ps).step (Expr.eval n) scope s =
      some (.ok (.hash t.fresh table), t.useFresh) :=
    Eval.bind_of_ok ends
  exact freePairs_iff.1 (hidden.step whole).1 p member

theorem key_plain {table : Table Key Value} {key value : Expr} {ps : List (Expr × Expr)}
    (hidden : HiddenThroughout (.pairs scope table ((key, value) :: ps)) s)
    (ends : Ends (.expr scope key) s (.ok v) t) : v.isReturned = false := by
  rcases usable : v.key? with _ | k
  · rcases ends with ⟨n, ends⟩
    have whole : Ends (.pairs scope table ((key, value) :: ps)) s (.error (.unusableKey v.type)) t :=
      ⟨n, (Eval.bind_of_ok ends).trans (by rw [usable]; rfl)⟩
    exact Fault.unusableKey_silent_iff.1 (hidden.here.finish _ _ whole).2
  · cases v with
    | returned v => cases usable
    | _ => rfl

/-! ### Calls -/

theorem callee_plain {f : Expr} {args : List Expr}
    (hidden : HiddenThroughout (.expr scope (.call f args)) s)
    (ends : Ends (.expr scope f) s (.ok v) t) : v.isReturned = false := by
  by_cases callable : v.isCallable = true
  · cases v with
    | returned v => cases callable
    | _ => rfl
  · rcases ends with ⟨n, ends⟩
    have whole : (Expr.call f args).step (Expr.eval n) scope s =
        some (.error (.notCallable v.type), t) :=
      (Eval.bind_of_ok ends).trans (by rw [if_neg callable]; rfl)
    exact Fault.notCallable_silent_iff.1 (hidden.step whole)

theorem arguments_quiet {f : Expr} {args : List Expr} {b : Builtin}
    (hidden : HiddenThroughout (.expr scope (.call f args)) s)
    (ends : Ends (.expr scope f) s (.ok (.builtin b)) t)
    (ends' : Ends (.all scope args) t (.ok vs) u) : b.exposes vs = false := by
  have tidy := (hidden.part (.arguments ends rfl)).passes ends'
  rcases b.shows tidy u with ⟨r, w, called, -, unmarked⟩
  rcases ends.together ends' with ⟨n, ends, ends'⟩
  have whole : (Expr.call f args).step (Expr.eval n) scope s = some (r, w) :=
    ((Eval.bind_of_ok ends).trans (Eval.bind_of_ok ends')).trans called
  have shown := hidden.step whole
  refine unmarked.1 ?_
  cases r with
  | error e => exact shown
  | ok v => exact shown.2 rfl

theorem parameter_free {f : Expr} {args : List Expr} {id : ObjectId} {closure : Closure} {x : String}
    (hidden : HiddenThroughout (.expr scope (.call f args)) s)
    (ends : Ends (.expr scope f) s (.ok (.function id closure)) t)
    (ends' : Ends (.all scope args) t (.ok vs) u)
    (bound : (closure.frame vs).bindings.get? x = some v) : v.free = true := by
  have start := (hidden.part (.call ends ends')).here.start
  have made : (u.addScope (closure.frame vs)).2.scopes[u.scopes.size]? = some (closure.frame vs) :=
    Array.getElem?_push_size
  exact start u.scopes.size (closure.frame vs) made x v bound

end HiddenThroughout

theorem Leaks.not_hidden {task : Task} {s : State} (leaks : Leaks task s) :
    ¬ HiddenThroughout task s := by
  intro hidden
  cases leaks with
  | negated ends marked => simp [hidden.operand_plain ends] at marked
  | operand unequal different ends ends' marked =>
    simp [hidden.operands_plain unequal different ends ends'] at marked
  | element ends member marked =>
    simp [Value.isReturned_of_free (hidden.element_free ends member)] at marked
  | indexed ends ends' marked =>
    rcases hidden.index_plain ends ends' with ⟨plain, plainIndex⟩
    rcases marked with marked | ⟨hash, marked⟩
    · simp [plain] at marked
    · simp [plainIndex hash] at marked
  | key ends marked => simp [hidden.key_plain ends] at marked
  | value ends member marked =>
    simp [Value.isReturned_of_free (hidden.value_free ends member)] at marked
  | callee ends marked => simp [hidden.callee_plain ends] at marked
  | argument ends ends' exposed => simp [hidden.arguments_quiet ends ends'] at exposed
  | parameter ends ends' bound marked =>
    simp [Value.isReturned_of_free (hidden.parameter_free ends ends' bound)] at marked
  | body ends => cases hidden.passes ends _ rfl

/-! ## Sessions -/

/-- In the session of the programs no marker shows: no binding of any scope holds one, no array and no
hash, no call gives one and no fault names one, and none stands in what a program gives. -/
structure MarkerHidden (programs : List Program) : Prop where
  tasks : ∀ task t, Meets programs task t → Hidden task t
  results : ∀ program s n v s', Runs programs program s →
    program.run n State.root s = some (some v, s') → v.free = true

/-- Nothing leaks in any task of the session. -/
def NothingLeaks (programs : List Program) : Prop :=
  ∀ task t, Meets programs task t → ¬ Leaks task t

namespace NothingLeaks

variable {programs : List Program}

theorem safe (silent : NothingLeaks programs) {task : Task} {s : State} (met : Meets programs task s) :
    Safe task s :=
  fun task' s' reached => silent task' s' (met.reaches reached)

theorem of_append {after : List Program} (silent : NothingLeaks (programs ++ after)) :
    NothingLeaks programs :=
  fun task t met => silent task t (met.append after)

/-- Each program leaves a clean state to the next one. -/
theorem clean (silent : NothingLeaks programs) {s : State} (ran : Ran programs s) : s.Clean := by
  induction ran with
  | nil => exact .initial
  | @snoc programs program s s' n result ran ends ih =>
    have start := ih silent.of_append
    have met : Meets (programs ++ [program]) (.body State.root program) s :=
      ⟨program, s, ⟨programs, [], rfl, ran⟩, .refl _ _⟩
    have hidden := (silent.safe met).hidden trivial start
    rcases Program.run_ends ends with ⟨r, whole, -⟩ | ⟨e, whole, -⟩
    · exact (hidden.finish _ _ whole).1
    · exact (hidden.finish _ _ whole).1

theorem start (silent : NothingLeaks programs) {program : Program} {s : State}
    (runs : Runs programs program s) : s.Clean := by
  rcases runs with ⟨before, after, rfl, ran⟩
  exact silent.of_append.clean ran

theorem hidden (silent : NothingLeaks programs) {task : Task} {t : State}
    (met : Meets programs task t) : Hidden task t := by
  rcases met with ⟨program, s, runs, reached⟩
  have safe := silent.safe ⟨program, s, runs, .refl _ _⟩
  exact reached.hidden trivial (silent.start runs) safe

end NothingLeaks

/-- The marker is hidden in a session if and only if nothing leaks in it. -/
theorem markerHidden_iff (programs : List Program) :
    MarkerHidden programs ↔ NothingLeaks programs := by
  constructor
  · intro hidden task t met leaks
    exact leaks.not_hidden fun task' t' reached => hidden.tasks task' t' (met.reaches reached)
  · intro silent
    refine ⟨fun task t met => silent.hidden met, fun program s n v s' runs ends => ?_⟩
    have whole := silent.hidden ⟨program, s, runs, .refl _ _⟩
    rcases Program.run_ends ends with ⟨r, body, gives⟩ | ⟨e, _, gives⟩
    · rcases Option.map_eq_some_iff.1 gives.symm with ⟨w, rfl, rfl⟩
      exact (whole.finish _ _ body).2 w rfl
    · cases gives
      rfl

/-- Two markers, one of which the program takes off. -/
theorem not_markerHidden_nested_return :
    ∃ programs, ["return if (true) { return 1 };"].mapM Program.parse = .ok programs ∧
      ¬ MarkerHidden programs := by
  have built : (Draft.ofText "return if (true) { return 1 };").statements =
      [.leave (.cond (.bool true) [.leave (.int 1)] none)] := by
    decide +kernel
  have accepted : (Draft.ofText "return if (true) { return 1 };").errors.isEmpty = true := by
    decide +kernel
  have read : ["return if (true) { return 1 };"].mapM Program.parse =
      .ok [[.leave (.cond (.bool true) [.leave (.int 1)] none)]] := by
    simp only [List.mapM_cons, Program.parse, accepted, built]
    rfl
  refine ⟨_, read, fun hidden => ?_⟩
  have runs : Runs [[.leave (.cond (.bool true) [.leave (.int 1)] none)]]
      [.leave (.cond (.bool true) [.leave (.int 1)] none)] State.initial :=
    ⟨[], [], rfl, .nil⟩
  have marked : (Value.returned (.int 1)).free = true :=
    hidden.results _ _ 3 _ _ runs rfl
  cases marked

end Script
