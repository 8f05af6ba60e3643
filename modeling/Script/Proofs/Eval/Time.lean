import Script.Proofs.Eval.Extends
import Script.Proofs.Eval.Order

/-!
# Parts in the time of their task

Objects and scopes are made and never taken away, so their numbers tell the time. A part begins when
its task has begun, and has ended when its task has ended. Of two parts of one task either both are the
same, or one begins when the other has ended: `Part.compare`.
-/

namespace Script

/-! ## Ends -/

variable {a b c : Task} {s t u v w : State}

theorem Task.eval_grows (n : Nat) (task : Task) : (task.eval n).Keeps State.Grows := by
  have effects := State.Grows.effects
  have keeps := Expr.eval_keeps effects n
  cases task with
  | expr scope e => exact keeps scope e
  | all scope es => exact evalAll_keeps effects keeps scope es
  | pairs scope table ps => exact evalPairs_keeps effects keeps scope table ps
  | statement scope one => exact Statement.step_keeps effects keeps scope one
  | statements scope last block => exact Statement.stepAll_keeps effects keeps scope last block
  | body scope block => exact Statement.stepAll_keeps effects keeps scope none block

theorem Ends.grows {r : Except Fault a.Result} (ends : Ends a s r t) : s.Grows t := by
  rcases ends with ⟨n, ends⟩
  exact a.eval_grows n s r t ends

/-- Where a value is had to go on with, what goes on ends where the whole does. -/
theorem Eval.of_bind_ok {α β : Type} {x : Eval α} {f : α → Eval β} {r : Except Fault β} {y : α}
    (whole : (x >>= f) s = some (r, w)) (first : x s = some (.ok y, t)) : f y t = some (r, w) :=
  (Eval.bind_of_ok first).symm.trans whole

/-- What an evaluation begins with has ended when the whole has. -/
theorem Eval.exists_of_bind {α β : Type} {x : Eval α} {f : α → Eval β} {r : Except Fault β}
    (whole : (x >>= f) t = some (r, w)) (keeps : ∀ y, (f y).Keeps State.Grows) :
    ∃ q v, x t = some (q, v) ∧ v.Grows w := by
  rw [Eval.bind_apply] at whole
  rcases first : x t with _ | ⟨e | y, v⟩
  · rw [first] at whole
    cases whole
  · rw [first] at whole
    cases whole
    exact ⟨_, _, rfl, .refl _⟩
  · rw [first] at whole
    exact ⟨_, v, rfl, keeps y v r w whole⟩

/-- A task that an evaluation begins with has ended when the whole has. -/
theorem Ends.exists_of_bind {β : Type} {n : Nat} {f : b.Result → Eval β} {r : Except Fault β}
    (whole : (b.eval n >>= f) t = some (r, w)) (keeps : ∀ y, (f y).Keeps State.Grows) :
    ∃ q v, Ends b t q v ∧ v.Grows w := by
  rcases Eval.exists_of_bind whole keeps with ⟨q, v, first, grows⟩
  exact ⟨q, v, ⟨n, first⟩, grows⟩

/-- An expression that ends does so in one step over parts that are evaluated deep enough. -/
theorem Ends.exists_step {scope : ScopeId} {e : Expr} {r : Except Fault Value}
    (ends : Ends (.expr scope e) s r t) (m : Nat) :
    ∃ n, m ≤ n ∧ e.step (Expr.eval n) scope s = some (r, t) := by
  rcases ends with ⟨_ | n, ends⟩
  · cases ends
  · exact ⟨max m n, Nat.le_max_left m n,
      (Task.expr scope e).eval_mono (Nat.succ_le_succ (Nat.le_max_right m n)) s _ ends⟩

/-- This step goes over a part that has ended. -/
theorem Ends.exists_step_over {scope : ScopeId} {e : Expr} {r : Except Fault Value}
    {q : Except Fault b.Result} (ends : Ends (.expr scope e) s r t) (part : Ends b u q v) :
    ∃ n, b.eval n u = some (q, v) ∧ e.step (Expr.eval n) scope s = some (r, t) := by
  rcases part with ⟨m, part⟩
  rcases ends.exists_step m with ⟨n, le, ends⟩
  exact ⟨n, b.eval_mono le u _ part, ends⟩

/-! ## Parts that have ended -/

section

variable {r : Except Fault a.Result} {scope : ScopeId} {n : Nat}

theorem Expr.keepsGrows (n : Nat) : (Expr.eval n).Keeps fun _ => State.Grows :=
  Expr.eval_keeps State.Grows.effects n

/-- The statements of a branch or a body have ended when the block has. -/
theorem Block.exists_of_step {block : Block} {r : Except Fault Value}
    (ends : block.step (Expr.eval n) scope t = some (r, w)) :
    ∃ q v, Ends (.statements scope none block) t q v ∧ v.Grows w :=
  Ends.exists_of_bind (b := .statements scope none block) ends fun _ =>
    .pure (State.Grows.effects.chains scope) _

/-- If a task ends, then each part that it begins has ended before. -/
theorem Part.ended (part : Part a s b t) (ends : Ends a s r w) :
    ∃ q v, Ends b t q v ∧ v.Grows w := by
  have effects := State.Grows.effects
  have chains := effects.chains State.root
  cases part with
  -- Behind the parts of most expressions not much is left to do.
  | operand =>
    rcases ends.exists_step 0 with ⟨n, -, ends⟩
    exact Ends.exists_of_bind (b := .expr _ _) ends fun v => .ofExcept chains _
  | @left scope _ _ b =>
    rcases ends.exists_step 0 with ⟨n, -, ends⟩
    exact Ends.exists_of_bind (b := .expr _ _) ends fun v =>
      .bind chains (Expr.keepsGrows n scope b) fun _ => .ofExcept chains _
  | right first =>
    rcases ends.exists_step_over first with ⟨n, first, ends⟩
    have rest := Eval.of_bind_ok ends first
    exact Ends.exists_of_bind (b := .expr _ _) rest fun _ => .ofExcept chains _
  | @test scope _ yes no =>
    rcases ends.exists_step 0 with ⟨n, -, ends⟩
    refine Ends.exists_of_bind (b := .expr _ _) ends fun v => ?_
    split
    · exact Block.step_keeps effects (Expr.keepsGrows n) scope yes
    · cases no with
      | none => exact .pure chains _
      | some no => exact Block.step_keeps effects (Expr.keepsGrows n) scope no
  | yes tested truthy =>
    rcases ends.exists_step_over tested with ⟨n, tested, ends⟩
    have rest := Eval.of_bind_ok ends tested
    rw [if_pos truthy] at rest
    exact Block.exists_of_step rest
  | no tested falsy =>
    rcases ends.exists_step_over tested with ⟨n, tested, ends⟩
    have rest := Eval.of_bind_ok ends tested
    rw [if_neg (Bool.eq_false_iff.1 falsy)] at rest
    exact Block.exists_of_step rest
  | elements =>
    rcases ends.exists_step 0 with ⟨n, -, ends⟩
    exact Ends.exists_of_bind (b := .all _ _) ends fun vs => effects.newObject 0 _
  | @collection scope _ i =>
    rcases ends.exists_step 0 with ⟨n, -, ends⟩
    exact Ends.exists_of_bind (b := .expr _ _) ends fun v =>
      .bind chains (Expr.keepsGrows n scope i) fun _ => .ofExcept chains _
  | position first =>
    rcases ends.exists_step_over first with ⟨n, first, ends⟩
    have rest := Eval.of_bind_ok ends first
    exact Ends.exists_of_bind (b := .expr _ _) rest fun _ => .ofExcept chains _
  | hash =>
    rcases ends.exists_step 0 with ⟨n, -, ends⟩
    exact Ends.exists_of_bind (b := .pairs _ _ _) ends fun table => effects.newObject 0 _
  -- Behind a callee come the arguments, and behind them the call.
  | @callee scope _ args =>
    rcases ends.exists_step 0 with ⟨n, -, ends⟩
    refine Ends.exists_of_bind (b := .expr _ _) ends fun v => ?_
    split
    · exact .bind chains (evalAll_keeps effects (Expr.keepsGrows n) scope args) fun vs =>
        Value.stepCall_keeps effects (Expr.keepsGrows n) v vs
    · exact .fail chains _
  | arguments called callable =>
    rcases ends.exists_step_over called with ⟨n, called, ends⟩
    have rest := Eval.of_bind_ok ends called
    rw [if_pos callable] at rest
    exact Ends.exists_of_bind (b := .all _ _) rest fun vs =>
      Value.stepCall_keeps effects (Expr.keepsGrows n) _ vs
  | @call scope _ _ s id closure t vs u called given =>
    rcases called.together given with ⟨m, called, given⟩
    rcases ends.exists_step m with ⟨n, le, ends⟩
    have rest := Eval.of_bind_ok ends (Task.eval_mono le _ _ _ called)
    have call : closure.step (Expr.eval n) vs u = some (r, w) :=
      Eval.of_bind_ok rest (Task.eval_mono le _ _ _ given)
    -- The value of the body is taken out of its marker, and a body without value gives `null`.
    have entered : (closure.body.step (Expr.eval n) u.scopes.size >>= fun v => pure v.unwrap)
        (u.addScope (closure.frame vs)).2 = some (r, w) := call
    rcases Eval.exists_of_bind entered fun v => .pure chains _ with ⟨q, v, block, grows⟩
    rcases Block.exists_of_step block with ⟨q', v', body, grows'⟩
    exact ⟨q', v', body, grows'.trans grows⟩
  -- Lists and statements.
  | @first scope _ es =>
    rcases ends with ⟨n, ends⟩
    exact Ends.exists_of_bind (b := .expr _ _) ends fun v =>
      .bind chains (evalAll_keeps effects (Expr.keepsGrows n) scope es) fun _ =>
        .pure chains _
  | others first =>
    rcases first.together ends with ⟨n, first, ends⟩
    have rest := Eval.of_bind_ok ends first
    exact Ends.exists_of_bind (b := .all _ _) rest fun _ => .pure chains _
  | @key scope _ _ value =>
    rcases ends with ⟨n, ends⟩
    refine Ends.exists_of_bind (b := .expr _ _) ends fun k => ?_
    cases k.key? with
    | none => exact .fail chains _
    | some k =>
      exact .bind chains (Expr.keepsGrows n scope value) fun _ =>
        evalPairs_keeps effects (Expr.keepsGrows n) scope _ _
  | value first usable =>
    rcases first.together ends with ⟨n, first, ends⟩
    have rest := Eval.of_bind_ok ends first
    rw [usable] at rest
    exact Ends.exists_of_bind (b := .expr _ _) rest fun _ =>
      evalPairs_keeps effects (Expr.keepsGrows n) _ _ _
  | morePairs first usable second =>
    rcases first.allTogether second ends with ⟨n, first, second, ends⟩
    have rest := Eval.of_bind_ok ends first
    rw [usable] at rest
    have others := Eval.of_bind_ok rest second
    exact ⟨_, _, ⟨n, others⟩, .refl _⟩
  | @expr scope one =>
    rcases ends with ⟨n, ends⟩
    cases one with
    | bind x e =>
      refine Ends.exists_of_bind (b := .expr _ _) ends fun v => ?_
      split
      · exact .pure chains _
      · exact .bind chains (.change (effects.bind scope x v)) fun _ => .pure chains _
    | leave e | expr e =>
      exact Ends.exists_of_bind (b := .expr _ _) ends fun v => .pure chains _
  | @statement scope _ _ rest =>
    rcases ends with ⟨n, ends⟩
    refine Ends.exists_of_bind (b := .statement _ _) ends fun result => ?_
    split
    · exact .pure chains _
    · exact Statement.stepAll_keeps effects (Expr.keepsGrows n) scope result rest
  | statements first unmarked =>
    rcases first.together ends with ⟨n, first, ends⟩
    have rest := Eval.of_bind_ok ends first
    rw [if_neg (Bool.eq_false_iff.1 unmarked)] at rest
    exact ⟨_, _, ⟨n, rest⟩, .refl _⟩
  | body => exact ⟨r, w, ends, .refl w⟩

end

/-- What is carried out on the way of a task that ends has ended before. -/
theorem Reaches.ended (reached : Reaches a s b t) {r : Except Fault a.Result}
    (ends : Ends a s r w) : ∃ q v, Ends b t q v ∧ v.Grows w := by
  induction reached generalizing w with
  | refl => exact ⟨r, w, ends, .refl w⟩
  | step part _ ih =>
    rcases part.ended ends with ⟨q, v, ends', grows⟩
    rcases ih ends' with ⟨q', v', ends'', grows'⟩
    exact ⟨q', v', ends'', grows'.trans grows⟩

/-! ## Parts that begin -/

/-- A part begins when its task has begun. -/
theorem Part.begun (part : Part a s b t) : s.Grows t := by
  cases part with
  | operand | left | test | elements | collection | hash | callee | first | key | expr | statement
  | body => exact .refl s
  | right ends | yes ends | no ends | position ends | arguments ends | others ends | value ends
  | statements ends => exact ends.grows
  | call called given => exact (called.grows.trans given.grows).trans (.addScope _ _)
  | morePairs first _ second => exact first.grows.trans second.grows

theorem Reaches.begun (reached : Reaches a s b t) : s.Grows t := by
  induction reached with
  | refl => exact .refl _
  | step part _ ih => exact part.begun.trans ih

/-- A later part begins behind the value of the other one, when this has ended. -/
theorem Later.exists_ended (later : Later a s b t c u) : ∃ x v, Ends b t (.ok x) v ∧ v.Grows u := by
  cases later with
  | right ends | yes ends | no ends | position ends | arguments ends | others ends | value ends
  | statements ends => exact ⟨_, _, ends, .refl _⟩
  | callAfterCallee called given => exact ⟨_, _, called, given.grows.trans (.addScope _ _)⟩
  | callAfterArguments _ given => exact ⟨_, _, given, .addScope _ _⟩
  | pairsAfterKey first _ second => exact ⟨_, _, first, second.grows⟩
  | pairsAfterValue _ _ second => exact ⟨_, _, second, .refl _⟩

/-- Two parts of a task are the same, or one of them is later than the other. -/
theorem Part.compare (first : Part a s b t) (second : Part a s c u) :
    (b = c ∧ t = u) ∨ Later a s b t c u ∨ Later a s c u b t := by
  cases first with
  | operand | elements | hash | expr | body =>
    cases second
    exact .inl ⟨rfl, rfl⟩
  | left =>
    cases second with
    | left => exact .inl ⟨rfl, rfl⟩
    | right ends => exact .inr (.inl (.right ends))
  | right ends =>
    cases second with
    | left => exact .inr (.inr (.right ends))
    | right ends' =>
      cases (ends.unique ends').2
      exact .inl ⟨rfl, rfl⟩
  | test =>
    cases second with
    | test => exact .inl ⟨rfl, rfl⟩
    | yes ends truthy => exact .inr (.inl (.yes ends truthy))
    | no ends falsy => exact .inr (.inl (.no ends falsy))
  | yes ends truthy =>
    cases second with
    | test => exact .inr (.inr (.yes ends truthy))
    | yes ends' =>
      cases (ends.unique ends').2
      exact .inl ⟨rfl, rfl⟩
    | no ends' falsy =>
      cases (ends.unique ends').1
      cases truthy.symm.trans falsy
  | no ends falsy =>
    cases second with
    | test => exact .inr (.inr (.no ends falsy))
    | yes ends' truthy =>
      cases (ends.unique ends').1
      cases truthy.symm.trans falsy
    | no ends' =>
      cases (ends.unique ends').2
      exact .inl ⟨rfl, rfl⟩
  | collection =>
    cases second with
    | collection => exact .inl ⟨rfl, rfl⟩
    | position ends => exact .inr (.inl (.position ends))
  | position ends =>
    cases second with
    | collection => exact .inr (.inr (.position ends))
    | position ends' =>
      cases (ends.unique ends').2
      exact .inl ⟨rfl, rfl⟩
  | callee =>
    cases second with
    | callee => exact .inl ⟨rfl, rfl⟩
    | arguments ends callable => exact .inr (.inl (.arguments ends callable))
    | call ends given => exact .inr (.inl (.callAfterCallee ends given))
  | arguments ends callable =>
    cases second with
    | callee => exact .inr (.inr (.arguments ends callable))
    | arguments ends' =>
      cases (ends.unique ends').2
      exact .inl ⟨rfl, rfl⟩
    | call ends' given =>
      cases (ends.unique ends').2
      exact .inr (.inl (.callAfterArguments ends' given))
  | call ends given =>
    cases second with
    | callee => exact .inr (.inr (.callAfterCallee ends given))
    | arguments ends' =>
      cases (ends.unique ends').2
      exact .inr (.inr (.callAfterArguments ends given))
    | call ends' given' =>
      rcases ends.unique ends' with ⟨same, rfl⟩
      cases same
      rcases given.unique given' with ⟨same, rfl⟩
      cases same
      exact .inl ⟨rfl, rfl⟩
  | first =>
    cases second with
    | first => exact .inl ⟨rfl, rfl⟩
    | others ends => exact .inr (.inl (.others ends))
  | others ends =>
    cases second with
    | first => exact .inr (.inr (.others ends))
    | others ends' =>
      cases (ends.unique ends').2
      exact .inl ⟨rfl, rfl⟩
  | key =>
    cases second with
    | key => exact .inl ⟨rfl, rfl⟩
    | value ends usable => exact .inr (.inl (.value ends usable))
    | morePairs ends usable ends' => exact .inr (.inl (.pairsAfterKey ends usable ends'))
  | value ends usable =>
    cases second with
    | key => exact .inr (.inr (.value ends usable))
    | value ends' =>
      cases (ends.unique ends').2
      exact .inl ⟨rfl, rfl⟩
    | morePairs ends' usable' value =>
      cases (ends.unique ends').2
      exact .inr (.inl (.pairsAfterValue ends' usable' value))
  | morePairs ends usable value =>
    cases second with
    | key => exact .inr (.inr (.pairsAfterKey ends usable value))
    | value ends' =>
      cases (ends.unique ends').2
      exact .inr (.inr (.pairsAfterValue ends usable value))
    | morePairs ends' usable' value' =>
      rcases ends.unique ends' with ⟨same, rfl⟩
      cases same
      cases usable.symm.trans usable'
      rcases value.unique value' with ⟨same, rfl⟩
      cases same
      exact .inl ⟨rfl, rfl⟩
  | statement =>
    cases second with
    | statement => exact .inl ⟨rfl, rfl⟩
    | statements ends unmarked => exact .inr (.inl (.statements ends unmarked))
  | statements ends unmarked =>
    cases second with
    | statement => exact .inr (.inr (.statements ends unmarked))
    | statements ends' =>
      rcases ends.unique ends' with ⟨same, rfl⟩
      cases same
      exact .inl ⟨rfl, rfl⟩

end Script
