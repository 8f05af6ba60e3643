import Script.Proofs.Eval.Effects

/-!
# What evaluation leaves alone

Evaluation in a scope writes to that scope and to scopes it makes itself, and to no other. In its own
scope it only adds bindings or replaces them. A call runs in a scope of its own, so it leaves every
scope that was there before as it was.

`Frame scope` is what evaluating in `scope` does to a state, `Untouched` what a call does.
-/

namespace Script

/-! ## Scopes that stay -/

/-- Every scope that was there is still the same. -/
def Untouched (s s' : State) : Prop :=
  ∀ (i : ScopeId) (here : Scope), s.scopes[i]? = some here → s'.scopes[i]? = some here

/-- The scope has kept its link, and every name bound in it is still bound. -/
structure Scope.Grown (here after : Scope) : Prop where
  outer : after.outer = here.outer
  bound : ∀ x, (here.bindings.get? x).isSome → (after.bindings.get? x).isSome

/-- Every scope but `scope` is still the same, and `scope` itself has at most grown. -/
structure Frame (scope : ScopeId) (s s' : State) : Prop where
  others : ∀ (i : ScopeId) (here : Scope), i ≠ scope → s.scopes[i]? = some here →
    s'.scopes[i]? = some here
  own : ∀ here, s.scopes[scope]? = some here →
    ∃ after, s'.scopes[scope]? = some after ∧ here.Grown after

theorem Scope.Grown.refl (here : Scope) : here.Grown here :=
  ⟨rfl, fun _ bound => bound⟩

theorem Scope.Grown.trans {a b c : Scope} (first : a.Grown b) (second : b.Grown c) : a.Grown c :=
  ⟨second.outer.trans first.outer, fun x bound => second.bound x (first.bound x bound)⟩

theorem Untouched.of_scopes {s s' : State} (same : s'.scopes = s.scopes) : Untouched s s' := by
  intro i here there
  rw [same]
  exact there

theorem Untouched.chains : State.Chains Untouched where
  refl := fun _ _ _ there => there
  trans := fun first second i here there => second i here (first i here there)

theorem Frame.chains (scope : ScopeId) : State.Chains (Frame scope) where
  refl := fun _ => ⟨fun _ _ _ there => there, fun here there => ⟨here, there, .refl here⟩⟩
  trans := by
    intro s t u first second
    constructor
    · intro i here other there
      exact second.others i here other (first.others i here other there)
    · intro here there
      -- The scope between the two steps is the link from the first one to the last.
      rcases first.own here there with ⟨between, there', grown⟩
      rcases second.own between there' with ⟨after, there'', grown'⟩
      exact ⟨after, there'', grown.trans grown'⟩

theorem Untouched.frame {s s' : State} (h : Untouched s s') (scope : ScopeId) :
    Frame scope s s' where
  others := fun i here _ there => h i here there
  own := fun here there => ⟨here, h scope here there, .refl here⟩

/-! ## What evaluation does -/

theorem Frame.bind (scope : ScopeId) (x : String) (v : Value) (s : State) :
    Frame scope s (s.bind scope x v) := by
  constructor
  -- Other scopes are not modified; in the own one the outer link stays and a name is added.
  · intro i here other there
    simp [State.bind, Array.getElem?_modify, Ne.symm other, there]
  · intro here there
    refine ⟨{ here with bindings := here.bindings.insert x v }, ?_, rfl, ?_⟩
    · simp [State.bind, Array.getElem?_modify, there]
    · intro y bound
      rw [Table.get?_insert]
      split
      · rfl
      · exact bound

/-- The scope of a call is new, so evaluating in it touches none that was there. -/
theorem Frame.untouched {s t : State} {here : Scope}
    (frame : Frame s.scopes.size (s.addScope here).2 t) : Untouched s t := by
  intro i here' there
  -- Scopes that were there have positions below that of the new one.
  have old : i < s.scopes.size := (Array.getElem?_eq_some_iff.1 there).1
  refine frame.others i here' (Nat.ne_of_lt old) ?_
  simp [State.addScope, Array.getElem?_push, Nat.ne_of_lt old, there]

theorem Frame.effects : Effects Frame Untouched where
  chains := Frame.chains
  own := fun scope _ _ untouched => untouched.frame scope
  bind := Frame.bind
  enter := Frame.untouched
  objects := fun same _ => .of_scopes same

/-- Whatever is evaluated in a scope, and however it ends, only that scope and new ones are written
to. A call leaves all scopes alone. -/
theorem evaluation_frame (n : Nat) :
    (∀ scope e, (Expr.eval n scope e).Keeps (Frame scope)) ∧
    (∀ scope (statement : Statement), (statement.run n scope).Keeps (Frame scope)) ∧
    (∀ scope statements, (Statement.runAll n scope statements).Keeps (Frame scope)) ∧
    (∀ scope block, (Block.run n scope block).Keeps (Frame scope)) ∧
    ∀ (callee : Value) (args : List Value), (callee.call n args).Keeps Untouched := by
  have effects := Frame.effects
  have framed := Expr.eval_keeps effects n
  exact ⟨framed, Statement.step_keeps effects framed,
    fun scope => Statement.stepAll_keeps effects framed scope none,
    Block.step_keeps effects framed, Value.call_keeps effects n⟩

end Script
