import Script.Proofs.Eval.After
import Script.Proofs.Eval.Task

/-!
# How evaluations end

Rules for the end of a task from the ends of its parts, without depths: if the parts end one after the
other, each in the state that the one before it has left, then the whole ends where the last of them
does.
-/

namespace Script

/-- What is made of a value does not touch a fault. -/
theorem Eval.bind_pure_of {α β : Type} {x : Eval α} {r : Except Fault α} {s t : State} (f : α → β)
    (ends : x s = some (r, t)) : (x >>= fun a => pure (f a)) s = some (r.map f, t) := by
  rw [bind_apply, ends]
  cases r <;> rfl

variable {scope : ScopeId} {s t u u' : State}

/-! ## Lists and pairs -/

theorem Ends.cons {e : Expr} {es : List Expr} {v : Value} {vs : List Value}
    (first : Ends (.expr scope e) s (.ok v) t) (others : Ends (.all scope es) t (.ok vs) u) :
    Ends (.all scope (e :: es)) s (.ok (v :: vs)) u := by
  rcases first.together others with ⟨n, first, others⟩
  exact ⟨n, (Eval.bind_of_ok first).trans (Eval.bind_of_ok others)⟩

theorem Ends.consPair {key value : Expr} {ps : List (Expr × Expr)} {v w : Value} {k : Key}
    {table table' : Table Key Value} (first : Ends (.expr scope key) s (.ok v) t)
    (usable : v.key? = some k) (second : Ends (.expr scope value) t (.ok w) u)
    (others : Ends (.pairs scope (table.insert k w) ps) u (.ok table') u') :
    Ends (.pairs scope table ((key, value) :: ps)) s (.ok table') u' := by
  rcases first.allTogether second others with ⟨n, first, second, others⟩
  refine ⟨n, (Eval.bind_of_ok first).trans ?_⟩
  rw [usable]
  exact (Eval.bind_of_ok second).trans others

theorem Ends.hash {ps : List (Expr × Expr)} {table : Table Key Value}
    (ends : Ends (.pairs scope [] ps) s (.ok table) t) :
    Ends (.expr scope (.hash ps)) s (.ok (.hash t.fresh table)) t.useFresh := by
  rcases ends with ⟨n, ends⟩
  exact ⟨n + 1, Eval.bind_of_ok ends⟩

/-! ## Expressions -/

theorem Ends.name {x : String} {v : Value} (names : evalName scope x s = some (.ok v, s)) :
    Ends (.expr scope (.name x)) s (.ok v) s :=
  ⟨1, names⟩

theorem Ends.binary {op : BinaryOp} {a b : Expr} {v w : Value}
    (left : Ends (.expr scope a) s (.ok v) t) (right : Ends (.expr scope b) t (.ok w) u) :
    Ends (.expr scope (.binary op a b)) s (op.apply v w) u := by
  rcases left.together right with ⟨n, left, right⟩
  exact ⟨n + 1, (Eval.bind_of_ok left).trans (Eval.bind_of_ok right)⟩

theorem Ends.array {es : List Expr} {vs : List Value} (ends : Ends (.all scope es) s (.ok vs) t) :
    Ends (.expr scope (.array es)) s (.ok (.array t.fresh vs)) t.useFresh := by
  rcases ends with ⟨n, ends⟩
  exact ⟨n + 1, Eval.bind_of_ok ends⟩

section

variable {test : Expr} {ys ns : Block} {v : Value} {r : Except Fault (Option Value)}

theorem Ends.yes {other : Option Block} (tested : Ends (.expr scope test) s (.ok v) t)
    (truthy : v.isTruthy = true) (ends : Ends (.statements scope none ys) t r u) :
    Ends (.expr scope (.cond test ys other)) s (r.map (·.getD .null)) u := by
  rcases tested.together ends with ⟨n, tested, ends⟩
  refine ⟨n + 1, (Eval.bind_of_ok tested).trans ?_⟩
  rw [if_pos truthy]
  exact Eval.bind_pure_of _ ends

theorem Ends.no (tested : Ends (.expr scope test) s (.ok v) t) (falsy : v.isTruthy = false)
    (ends : Ends (.statements scope none ns) t r u) :
    Ends (.expr scope (.cond test ys (some ns))) s (r.map (·.getD .null)) u := by
  rcases tested.together ends with ⟨n, tested, ends⟩
  refine ⟨n + 1, (Eval.bind_of_ok tested).trans ?_⟩
  rw [if_neg (by simp [falsy])]
  exact Eval.bind_pure_of _ ends

end

/-! ## Calls -/

/-- Called in `s` with the arguments, the value ends with the outcome `r` and leaves `t`. -/
def Value.CallEnds (callee : Value) (args : List Value) (s : State) (r : Except Fault Value)
    (t : State) : Prop :=
  ∃ n, callee.call n args s = some (r, t)

theorem Value.CallEnds.builtin {b : Builtin} {args : List Value} {r : Except Fault Value}
    (ends : b.call args s = some (r, t)) : (Value.builtin b).CallEnds args s r t :=
  ⟨0, ends⟩

/-- A function ends as its body does, without the marker. -/
theorem Value.CallEnds.function {id : ObjectId} {f : Closure} {args : List Value}
    {r : Except Fault (Option Value)}
    (ends : Ends (.body s.scopes.size f.body) (s.addScope (f.frame args)).2 r t) :
    (Value.function id f).CallEnds args s (r.map fun result => (result.getD .null).unwrap) t := by
  rcases ends with ⟨n, ends⟩
  have block := Eval.bind_pure_of (fun result : Option Value => result.getD .null) ends
  have body := Eval.bind_pure_of Value.unwrap block
  refine ⟨n, Eq.trans body ?_⟩
  cases r <;> rfl

theorem Ends.applied {f : Expr} {args : List Expr} {g : Value} {vs : List Value}
    {r : Except Fault Value} (callee : Ends (.expr scope f) s (.ok g) t)
    (callable : g.isCallable = true) (given : Ends (.all scope args) t (.ok vs) u)
    (called : g.CallEnds vs u r u') : Ends (.expr scope (.call f args)) s r u' := by
  rcases callee.together given with ⟨m, callee, given⟩
  rcases called with ⟨n, called⟩
  have callee' := Task.eval_mono (Nat.le_max_left m n) _ _ _ callee
  have given' := Task.eval_mono (Nat.le_max_left m n) _ _ _ given
  refine ⟨max m n + 1, (Eval.bind_of_ok callee').trans ?_⟩
  rw [if_pos callable]
  exact (Eval.bind_of_ok given').trans (Value.call_mono (Nat.le_max_right m n) g vs _ _ called)

/-! ## Statements -/

theorem Ends.exprStatement {e : Expr} {r : Except Fault Value} (ends : Ends (.expr scope e) s r t) :
    Ends (.statement scope (.expr e)) s (r.map some) t := by
  rcases ends with ⟨n, ends⟩
  exact ⟨n, Eval.bind_pure_of some ends⟩

theorem Ends.bindStatement {x : String} {e : Expr} {v : Value}
    (ends : Ends (.expr scope e) s (.ok v) t) (unmarked : v.isReturned = false) :
    Ends (.statement scope (.bind x e)) s (.ok none) (t.bind scope x v) := by
  rcases ends with ⟨n, ends⟩
  refine ⟨n, (Eval.bind_of_ok ends).trans ?_⟩
  rw [if_neg (by simp [unmarked])]
  rfl

section

variable {last result : Option Value} {one : Statement} {rest : Block}
  {r : Except Fault (Option Value)}

/-- Behind the last statement nothing is left to do, whether its value is marked or not. -/
theorem Ends.single (ends : Ends (.statement scope one) s r t) :
    Ends (.statements scope last [one]) s r t := by
  rcases ends with ⟨n, ends⟩
  cases r with
  | error e => exact ⟨n, Eval.bind_of_error ends⟩
  | ok result =>
    refine ⟨n, (Eval.bind_of_ok ends).trans ?_⟩
    split <;> rfl

theorem Ends.following (first : Ends (.statement scope one) s (.ok result) t)
    (unmarked : result.any Value.isReturned = false)
    (ends : Ends (.statements scope result rest) t r u) :
    Ends (.statements scope last (one :: rest)) s r u := by
  rcases first.together ends with ⟨n, first, ends⟩
  refine ⟨n, (Eval.bind_of_ok first).trans ?_⟩
  rw [if_neg (by simp [unmarked])]
  exact ends

end

end Script
