import Script.Proofs.Eval.ClosedTasks
import Script.Proofs.Sameness.Run

/-!
# Call frames

A call makes a frame, a new scope inside the one that the function was made in, and binds the parameters
there by their positions before the body runs. Parameters and arguments are two lists of independent
lengths, and a name may stand among the parameters more than once. The binding made last is the one that
is seen, so the last position of a name decides, also when there is no argument for it.

Main statement: `framesBindByPosition`.
-/

namespace Script

/-! ## Positions -/

/-- The name stands at the position, and at none behind it. -/
def LastAt (x : String) (i : Nat) (xs : List String) : Prop :=
  xs[i]? = some x ∧ ∀ j, i < j → xs[j]? ≠ some x

section

variable {x y : String} {i : Nat} {xs : List String}

theorem LastAt.unique {j : Nat} (first : LastAt x i xs) (second : LastAt x j xs) : i = j := by
  rcases Nat.lt_trichotomy i j with before | same | behind
  · exact absurd second.1 (first.2 j before)
  · exact same
  · exact absurd first.1 (second.2 i behind)

theorem LastAt.notMem (last : LastAt x 0 (y :: xs)) : x ∉ xs := by
  intro later
  rcases List.mem_iff_getElem?.1 later with ⟨j, there⟩
  exact last.2 (j + 1) (Nat.succ_pos j) there

theorem LastAt.tail (last : LastAt x (i + 1) (y :: xs)) : LastAt x i xs :=
  ⟨last.1, fun j behind => last.2 (j + 1) (Nat.succ_lt_succ behind)⟩

theorem LastAt.cons (last : LastAt x i xs) (y : String) : LastAt x (i + 1) (y :: xs) := by
  refine ⟨last.1, fun j behind => ?_⟩
  cases j with
  | zero => cases behind
  | succ j => exact last.2 j (Nat.lt_of_succ_lt_succ behind)

theorem exists_lastAt (h : x ∈ xs) : ∃ i, LastAt x i xs := by
  induction xs with
  | nil => cases h
  | cons y xs ih =>
    by_cases later : x ∈ xs
    · rcases ih later with ⟨i, last⟩
      exact ⟨i + 1, last.cons y⟩
    · rcases List.mem_cons.1 h with rfl | there
      · refine ⟨0, rfl, fun j behind there => later ?_⟩
        cases j with
        | zero => cases behind
        | succ j => exact List.mem_of_getElem? there
      · exact absurd there later

/-! ## Binding the parameters -/

variable {bindings : Table String Value} {vs : List Value}

theorem get?_bindParams_of_notMem (other : x ∉ xs) :
    (bindParams bindings xs vs).get? x = bindings.get? x := by
  induction xs generalizing bindings vs with
  | nil => rfl
  | cons y xs ih =>
    have here : x ≠ y := List.ne_of_not_mem_cons other
    rw [bindParams, ih (List.not_mem_of_not_mem_cons other), Table.get?_insert_of_ne here]

/-- The argument at the last position of a name, or `null` where there is none, and no matter what was
bound before. -/
theorem get?_bindParams_of_lastAt (last : LastAt x i xs) :
    (bindParams bindings xs vs).get? x = some (vs[i]?.getD .null) := by
  induction xs generalizing bindings vs i with
  | nil => cases last.1
  | cons y xs ih =>
    rw [bindParams]
    cases i with
    | zero =>
      cases last.1
      rw [get?_bindParams_of_notMem last.notMem, Table.get?_insert_self]
      cases vs <;> rfl
    | succ i =>
      rw [ih last.tail, List.getElem?_tail]

/-- Only as many arguments are looked at as there are parameters. -/
theorem bindParams_take : bindParams bindings xs (vs.take xs.length) = bindParams bindings xs vs := by
  induction xs generalizing bindings vs with
  | nil => rfl
  | cons y xs ih =>
    cases vs with
    | nil => rfl
    | cons v vs => exact ih

end

/-! ## Values that are there -/

/-- The value exists in the state: it is bound there, or it is at hand or has been given in an evaluation
that has come about before, or it stands in such a value. -/
inductive Value.There (s : State) : Value → Prop
  | bound {v} : s.Binds v → There s v
  | atHand {task : Task} {t : State} {v} : task.In t → t.Grows s → v ∈ task.atHand → There s v
  | given {task : Task} {t u : State} {x v} : task.In t → Ends task t (.ok x) u → u.Grows s →
      v ∈ task.given x → There s v
  | part {v u} : There s v → u ∈ v.parts → There s u
  | marked {v} : There s (.returned v) → There s v

section

variable {s : State} {u v : Value}

theorem Value.There.inside (closed : s.Closed) (there : There s v) : v.In s := by
  induction there with
  | bound binds => exact closed.bound.binds binds
  | atHand inside grows here => exact grows.keeps (inside.values.atHand here)
  | given inside ends grows here => exact grows.keeps ((ends.leaves inside).2.2.given here)
  | part _ here ih => exact within_of_part ih here
  | marked _ ih => exact ih

theorem Value.Inside.within {scopes : ScopeId} {objects : ObjectId} (inside : u.Inside v)
    (h : v.Within scopes objects) : u.Within scopes objects := by
  induction inside with
  | self => exact h
  | part here _ ih => exact ih (within_of_part h here)
  | marked _ ih => exact ih h

end

/-! ## Frames -/

/-- The state in which the body of the function runs. -/
def Closure.enter (f : Closure) (args : List Value) (s : State) : State :=
  (s.addScope (f.frame args)).2

/-- What a call of the function with the arguments, made in `s`, does before the body runs. The frame is
the scope `s.scopes.size` of the state `f.enter args s`. -/
structure CallFrame (s : State) (id : ObjectId) (f : Closure) (args : List Value) : Prop where
  /-- The body runs in the frame, and the call gives its value without the marker. -/
  runs : ∀ n, (Value.function id f).call n args s =
    (f.body.run n s.scopes.size >>= fun v => pure v.unwrap) (f.enter args s)
  /-- Each parameter has a last position, and its name stands for the argument there, or for `null`
  where there are not that many arguments. -/
  parameter : ∀ x ∈ f.params, ∃ i, LastAt x i f.params ∧
    (f.enter args s).lookup x s.scopes.size = some (args[i]?.getD .null)
  /-- Every other name stands for what it stands for in the captured scope. -/
  other : ∀ x, x ∉ f.params → (f.enter args s).lookup x s.scopes.size = s.lookup x f.scope
  /-- Arguments behind those for the parameters have no effect. -/
  surplus : ∀ others : List Value, others.take f.params.length = args.take f.params.length →
    ∀ n, (Value.function id f).call n others s = (Value.function id f).call n args s
  /-- One scope is new, and those that were there are as before. -/
  new : (f.enter args s).scopes.size = s.scopes.size + 1 ∧ Untouched s (f.enter args s)
  /-- The frame lies in the captured scope, which was there before, -/
  enclosed : ∃ here, (f.enter args s).scopes[s.scopes.size]? = some here ∧
    here.outer = some f.scope ∧ f.scope < s.scopes.size
  /-- and no scope lies in the frame. -/
  innermost : ∀ (i : ScopeId) (here : Scope), (f.enter args s).scopes[i]? = some here →
    here.outer ≠ some s.scopes.size
  /-- No function that stands in the callee or in an argument, in a value that is bound in the state or
  in any other value that was there before has captured it. -/
  unseen : ∀ v, v ∈ .function id f :: args ∨ (f.enter args s).Binds v ∨ Value.There s v →
    ∀ j g, (Value.function j g).Inside v → g.scope ≠ s.scopes.size

section

variable {s : State} {id : ObjectId} {f : Closure} {args : List Value}

/-- The frame does not look at surplus arguments. -/
theorem Closure.frame_take (f : Closure) (args : List Value) :
    f.frame (args.take f.params.length) = f.frame args := by
  rw [frame, frame, bindParams_take]

/-- In a closed state, with a callee and arguments that belong to it. -/
theorem callFrame (closed : s.Closed) (callee : (Value.function id f).In s)
    (given : ∀ v ∈ args, v.In s) : CallFrame s id f args := by
  have made : f.scope < s.scopes.size := callee.2
  have there : (f.enter args s).scopes[s.scopes.size]? = some (f.frame args) :=
    Array.getElem?_push_size
  constructor
  case runs => exact fun n => rfl
  case parameter =>
    intro x among
    rcases exists_lastAt among with ⟨i, last⟩
    exact ⟨i, last, State.lookup_addScope_self (get?_bindParams_of_lastAt last)⟩
  case other =>
    intro x other
    have unbound : (f.frame args).bindings.get? x = none := get?_bindParams_of_notMem other
    exact State.lookup_addScope unbound rfl made
  case surplus =>
    intro others same n
    have frames : f.frame others = f.frame args := by
      rw [← f.frame_take others, same, f.frame_take]
    have calls (args : List Value) : (Value.function id f).call n args s =
        (f.body.run n s.scopes.size >>= fun v => pure v.unwrap) (f.enter args s) := rfl
    rw [calls, calls, Closure.enter, frames]
    rfl
  case new => exact ⟨Array.size_push _, (State.Extends.addScope s _).untouched⟩
  case enclosed => exact ⟨_, there, rfl, made⟩
  case innermost =>
    intro i here at_ link
    rw [Closure.enter, State.addScope, Array.getElem?_push] at at_
    split at at_
    · cases at_
      exact Nat.ne_of_lt made (Option.some.inj link)
    · exact Nat.lt_irrefl _ (closed.links i here at_ _ link)
  case unseen =>
    intro v known j g inside
    have within : v.In s := by
      rcases known with part | binds | before
      · rcases List.mem_cons.1 part with rfl | argument
        · exact callee
        · exact given v argument
      · exact (closed.bound.frame trivial given).binds binds
      · exact before.inside closed
    have captured := (inside.within within).2
    exact Nat.ne_of_lt captured

end

/-! ## The main theorem -/

/-- Every frame binds by position: that of a call made in any closed state, and that of every call that
a session comes to. -/
structure FramesBindByPosition : Prop where
  applied : ∀ s id f args, s.Closed → (Value.function id f).In s → (∀ v ∈ args, v.In s) →
    CallFrame s id f args
  called : ∀ programs scope callee exprs s id f t args u,
    Meets programs (.expr scope (.call callee exprs)) s →
    Ends (.expr scope callee) s (.ok (.function id f)) t → Ends (.all scope exprs) t (.ok args) u →
    CallFrame u id f args

theorem framesBindByPosition : FramesBindByPosition where
  applied s id f args := callFrame
  called programs scope callee exprs s id f t args u met first second := by
    have inside := met.inside
    have before : (Task.expr scope callee).In s := Part.callee.inside inside
    have between : (Task.all scope exprs).In t := (Part.arguments first rfl).inside inside
    rcases second.closed between with ⟨closed, grows, given⟩
    exact callFrame closed (grows.keeps (first.leaves before).2.2) (given args rfl)

/-- For example, with one argument too few a name that stands at the first and at the last position is
bound to `null`, and not to the first argument or to what it stands for outside. -/
theorem framesBindByPosition_repeated :
    let s := State.initial.useFresh.bind State.root "a" (.int 7)
    let f : Closure := ⟨["a", "b", "a"], [], State.root⟩
    let frame := f.enter [.int 1, .int 2] s
    CallFrame s 0 f [.int 1, .int 2] ∧ s.lookup "a" f.scope = some (.int 7) ∧
      frame.lookup "a" s.scopes.size = some .null ∧
      frame.lookup "b" s.scopes.size = some (.int 2) := by
  intro s f frame
  have before : State.initial.useFresh.Closed := State.Closed.initial.of_scopes rfl (.useFresh _)
  have closed : s.Closed := before.bind State.root "a" (v := .int 7) trivial
  have given : ∀ v ∈ [Value.int 1, .int 2], v.In s := by
    simp [Value.In, Value.Within]
  have call : CallFrame s 0 f [.int 1, .int 2] :=
    framesBindByPosition.applied s 0 f _ closed ⟨by decide, by decide⟩ given
  have a : LastAt "a" 2 f.params := by
    refine ⟨rfl, fun j behind => ?_⟩
    rw [List.getElem?_eq_none behind]
    nofun
  have b : LastAt "b" 1 f.params := by
    refine ⟨rfl, fun j behind => ?_⟩
    rcases Nat.lt_or_eq_of_le behind with last | rfl
    · rw [List.getElem?_eq_none last]
      nofun
    · decide
  refine ⟨call, State.lookup_bind_self (by decide) "a" _, ?_, ?_⟩
  · rcases call.parameter "a" (by decide) with ⟨i, last, found⟩
    cases last.unique a
    exact found
  · rcases call.parameter "b" (by decide) with ⟨i, last, found⟩
    cases last.unique b
    exact found

end Script
