import Script.Proofs.Eval.Order

/-!
# How a failure travels

A part that fails ends the task it is a part of: with the same fault, in the state that the part
left, and before any other part begins. So does a task anywhere below: in an operand, in a branch or
in the body of a function that is called. Main statements: `Reaches.fails` and `Within.failsWith`.
-/

namespace Script

variable {a b c : Task} {s t u w : State} {e : Fault}

/-! ## Outwards -/

/-- A part that fails takes its task with it. -/
theorem Part.fails (part : Part a s b t) (fails : Ends b t (.error e) u) :
    Ends a s (.error e) u := by
  cases part with
  | operand | left | test | collection | callee | elements | hash =>
    rcases fails with ⟨n, fails⟩
    exact ⟨n + 1, Eval.bind_of_error fails⟩
  -- The part begins where another one has ended.
  | right ends | position ends =>
    rcases ends.together fails with ⟨n, ends, fails⟩
    exact ⟨n + 1, (Eval.bind_of_ok ends).trans (Eval.bind_of_error fails)⟩
  | yes ends truthy =>
    rcases ends.together fails with ⟨n, ends, fails⟩
    refine ⟨n + 1, (Eval.bind_of_ok ends).trans ?_⟩
    rw [if_pos truthy]
    exact Eval.bind_of_error fails
  | no ends falsy =>
    rcases ends.together fails with ⟨n, ends, fails⟩
    refine ⟨n + 1, (Eval.bind_of_ok ends).trans ?_⟩
    rw [if_neg (by simp [falsy])]
    exact Eval.bind_of_error fails
  | arguments ends callable =>
    rcases ends.together fails with ⟨n, ends, fails⟩
    refine ⟨n + 1, (Eval.bind_of_ok ends).trans ?_⟩
    rw [if_pos callable]
    exact Eval.bind_of_error fails
  | call ends given =>
    rcases ends.allTogether given fails with ⟨n, ends, given, fails⟩
    -- The body of the call fails, and then nothing is left to unwrap.
    have block := Eval.bind_of_error (f := fun result => pure (result.getD .null)) fails
    have body := Eval.bind_of_error (f := fun v => pure v.unwrap) block
    exact ⟨n + 1, (Eval.bind_of_ok ends).trans ((Eval.bind_of_ok given).trans body)⟩
  | first | key =>
    rcases fails with ⟨n, fails⟩
    exact ⟨n, Eval.bind_of_error fails⟩
  | others ends =>
    rcases ends.together fails with ⟨n, ends, fails⟩
    exact ⟨n, (Eval.bind_of_ok ends).trans (Eval.bind_of_error fails)⟩
  | value ends usable =>
    rcases ends.together fails with ⟨n, ends, fails⟩
    refine ⟨n, (Eval.bind_of_ok ends).trans ?_⟩
    rw [usable]
    exact Eval.bind_of_error fails
  | morePairs ends usable ends' =>
    rcases ends.allTogether ends' fails with ⟨n, ends, ends', fails⟩
    refine ⟨n, (Eval.bind_of_ok ends).trans ?_⟩
    rw [usable]
    exact (Eval.bind_of_ok ends').trans fails
  | @expr scope one s =>
    rcases fails with ⟨n, fails⟩
    refine ⟨n, ?_⟩
    cases one with
    | bind | leave | expr => exact Eval.bind_of_error fails
  | statement =>
    rcases fails with ⟨n, fails⟩
    exact ⟨n, Eval.bind_of_error fails⟩
  | statements ends unmarked =>
    rcases ends.together fails with ⟨n, ends, fails⟩
    refine ⟨n, (Eval.bind_of_ok ends).trans ?_⟩
    rw [if_neg (by simp [unmarked])]
    exact fails
  | body => exact fails

/-- A failure comes out of every task it happens in, with nothing changed on its way. -/
theorem Reaches.fails (reached : Reaches a s b t) (fails : Ends b t (.error e) u) :
    Ends a s (.error e) u := by
  induction reached with
  | refl => exact fails
  | step part _ ih => exact part.fails (ih fails)

/-! ## Nothing behind -/

/-- A value and a fault exclude each other. -/
theorem Ends.not_ok {x : a.Result} (fails : Ends a s (.error e) t) : ¬ Ends a s (.ok x) u := by
  intro ends
  rcases fails.unique ends with ⟨same, -⟩
  cases same

/-- Behind a failure nothing begins. -/
theorem Ends.not_follows (fails : Ends b t (.error e) w) : ¬ Follows a s b t c u := by
  intro follows
  rcases follows with ⟨d, v, b', t', -, later, within⟩
  rcases later.exists_ends with ⟨x, t'', ends⟩
  exact (within.reaches.fails fails).not_ok ends

/-- If `b` fails in `a`, then so does `a`: with the same fault, in the same state, and with nothing
begun behind `b`. -/
def FailsWith (a : Task) (s : State) (b : Task) (t : State) : Prop :=
  ∀ e u, Ends b t (.error e) u → Ends a s (.error e) u ∧ ∀ c v, ¬ Follows a s b t c v

theorem Within.failsWith (within : Within a s b t) : FailsWith a s b t :=
  fun _ _ fails => ⟨within.reaches.fails fails, fun _ _ => fails.not_follows⟩

end Script
