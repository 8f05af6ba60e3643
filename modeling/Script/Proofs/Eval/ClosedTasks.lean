import Script.Proofs.Eval.Closed
import Script.Proofs.Eval.Faultless

/-!
# Nothing dangles on the way

A task belongs to a state if the state is closed, has the scope of the task, and has all that the values
at hand refer to. Then so does each task on its way, in the state in which that begins, and what it
gives belongs to the state it leaves. Hence every state that a session comes to is closed, and not only
those between its programs.
-/

namespace Script

/-! ## Tasks of a state -/

/-- The scope in which the task is carried out. -/
def Task.scope : Task → ScopeId
  | .expr scope _ | .all scope _ | .pairs scope _ _ | .statement scope _ | .statements scope _ _
  | .body scope _ => scope

/-- Everything that the task refers to is there in the state, and so is everything that the state
refers to. -/
structure Task.In (a : Task) (s : State) : Prop where
  closed : s.Closed
  scope : a.scope < s.scopes.size
  values : a.BeginsWith (·.In s)

variable {a b : Task} {s t : State}

/-- A task leaves a closed state that has all that was there before, and what it gives belongs to it. -/
theorem Ends.closed {r : Except Fault a.Result} (ends : Ends a s r t) (inside : a.In s) :
    t.Closed ∧ s.Grows t ∧ ∀ x, r = .ok x → a.EndsWith (·.In t) x := by
  rcases ends with ⟨n, ends⟩
  rcases inside with ⟨closed, there, begins⟩
  have stays := Expr.eval_closed n
  cases a with
  | expr scope e => exact stays scope e s closed there r t ends
  | all scope es => exact evalAll_closed stays es closed there r t ends
  | pairs scope table ps => exact evalPairs_closed stays ps closed there begins r t ends
  | statement scope one => exact Statement.step_closed stays one closed there r t ends
  | statements scope last block =>
    exact Statement.stepAll_closed stays block closed there begins r t ends
  | body scope block =>
    have none : ∀ v ∈ (none : Option Value), v.In s := nofun
    exact Statement.stepAll_closed stays block closed there none r t ends

/-! ## On the way -/

/-- What a part has ended with, to go on with in the same scope. -/
theorem Ends.leaves {x : a.Result} (ends : Ends a s (.ok x) t) (inside : a.In s) :
    t.Closed ∧ a.scope < t.scopes.size ∧ a.EndsWith (·.In t) x := by
  rcases ends.closed inside with ⟨closed, grows, given⟩
  exact ⟨closed, Nat.lt_of_lt_of_le inside.scope grows.scopes, given x rfl⟩

theorem Part.inside (part : Part a s b t) (inside : a.In s) : b.In t := by
  rcases inside with ⟨closed, there, begins⟩
  -- An expression that belongs to a state, and the state when it has ended.
  have first {scope : ScopeId} {e : Expr} {s t : State} {v : Value}
      (ends : Ends (.expr scope e) s (.ok v) t) (closed : s.Closed) (there : scope < s.scopes.size) :
      t.Closed ∧ scope < t.scopes.size ∧ v.In t :=
    ends.leaves ⟨closed, there, trivial⟩
  cases part with
  | operand | left | test | collection | callee | first | key | expr | elements | statement =>
    exact ⟨closed, there, trivial⟩
  | hash | body => exact ⟨closed, there, nofun⟩
  | right ends | position ends | arguments ends | others ends | value ends =>
    rcases first ends closed there with ⟨closed', there', -⟩
    exact ⟨closed', there', trivial⟩
  | yes ends | no ends =>
    rcases first ends closed there with ⟨closed', there', -⟩
    exact ⟨closed', there', nofun⟩
  | @call scope f args s id closure t vs u ends ends' =>
    rcases first ends closed there with ⟨closed', there', callee⟩
    have given : (Task.all scope args).In t := ⟨closed', there', trivial⟩
    rcases ends'.closed given with ⟨closed'', grows, args⟩
    have made := (grows.keeps callee).2
    exact ⟨closed''.frame made (args _ rfl), by simp [Task.scope, State.addScope], trivial⟩
  | @morePairs scope table key value ps s v t k w u ends _ ends' =>
    have before : (Task.expr scope key).In s := ⟨closed, there, trivial⟩
    rcases first ends closed there with ⟨closed', there', -⟩
    have between : (Task.expr scope value).In t := ⟨closed', there', trivial⟩
    rcases first ends' closed' there' with ⟨closed'', there'', new⟩
    have grows := (ends.closed before).2.1.trans (ends'.closed between).2.1
    refine ⟨closed'', there'', fun p here => ?_⟩
    rcases Table.mem_insert here with rfl | old
    · exact new
    · exact grows.keeps (begins p old)
  | statements ends _ =>
    rcases ends.leaves ⟨closed, there, trivial⟩ with ⟨closed', there', result⟩
    exact ⟨closed', there', result⟩

theorem Reaches.inside (reached : Reaches a s b t) (inside : a.In s) : b.In t := by
  induction reached with
  | refl => exact inside
  | step part _ ih => exact ih (part.inside inside)

/-- In every state that a session comes to, everything that is referred to is there. -/
theorem Meets.inside {programs : List Program} (met : Meets programs a s) : a.In s := by
  rcases met with ⟨program, start, ⟨before, after, -, ran⟩, reached⟩
  exact reached.inside ⟨ran.closed.1, ran.closed.2, trivial⟩

end Script
