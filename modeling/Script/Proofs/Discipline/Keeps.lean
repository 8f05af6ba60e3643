import Script.Proofs.Discipline.Basic
import Script.Proofs.Eval.After

/-!
# Evaluation keeps the discipline

A state is fit if all values bound in it are. Evaluating a disciplined expression in a fit state
leaves a fit state and gives a fit value; only where the expression may be left, the value may be
marked, and then it is fit behind its one marker. Statements and blocks are alike, and a call of a fit
function gives a fit value, since it takes the marker off.

There is one lemma for each part of the evaluator, over any evaluator of parts, and one induction on
the depth.
-/

namespace Script

/-- All bindings are fit. -/
def State.Fit (s : State) : Prop :=
  s.Bound fun v => v.fit = true

theorem State.Fit.clean {s : State} (fit : s.Fit) : s.Clean :=
  fit.mono Value.free_of_fit

/-! ## Built-in functions -/

theorem newArray_upholds {s : State} {vs : List Value} (fit : s.Fit)
    (elements : ∀ v ∈ vs, v.fit = true) :
    (Eval.newArray vs).Upholds State.Fit s fun v => v.fit = true :=
  .change (fit.of_scopes rfl) (fitAll_iff.2 elements)

theorem Builtin.call_upholds {s : State} (b : Builtin) {args : List Value} (fit : s.Fit)
    (whole : ∀ v ∈ args, v.fit = true) :
    (b.call args).Upholds State.Fit s fun v => v.fit = true := by
  have fits {v : Value} (given : Builtin.Given args v) : v.fit = true := by
    rcases given with here | ⟨a, here, part⟩
    · exact whole v here
    · exact Value.fit_of_part (whole a here) part
  refine (b.call_outcome args).mono fun r t outcome => ?_
  cases r with
  | error e => exact ⟨(show t = s from outcome) ▸ fit, nofun⟩
  | ok v =>
    refine ⟨?_, fun _ same => Except.ok.inj same ▸ ?_⟩
    · cases outcome with
      | plain _ scopes _ => exact fit.of_scopes scopes
      | given => exact fit
      | new => exact fit.of_scopes rfl
    · cases outcome with
      | plain plain => exact Value.fit_of_plain plain
      | given given => exact fits given
      | new inside => exact fitAll_iff.2 fun u here => fits (inside u here)

/-! ## One step of evaluation -/

/-- A disciplined expression gives a fit value, or leaves with one where it may be left. -/
def Evaluator.Disciplined (eval : Evaluator) : Prop :=
  ∀ scope e leaves s, e.disciplined leaves = true → s.Fit →
    (eval scope e).Upholds State.Fit s fun v => v.settled leaves = true

section

variable {eval : Evaluator} (sound : eval.Disciplined) {s : State}

include sound

/-- An expression that may not be left gives a fit value. -/
theorem Evaluator.Disciplined.inner (scope : ScopeId) {e : Expr} (h : e.disciplined false = true)
    (fit : s.Fit) : (eval scope e).Upholds State.Fit s fun v => v.fit = true :=
  (sound scope e false s h fit).mono fun v settled => v.settled_false ▸ settled

theorem evalAll_upholds (scope : ScopeId) {es : List Expr} (h : disciplinedList es = true)
    (fit : s.Fit) : (evalAll (eval scope) es).Upholds State.Fit s fun vs => ∀ v ∈ vs, v.fit = true := by
  induction es generalizing s with
  | nil => exact .pure fit nofun
  | cons e es ih =>
    rcases Bool.and_eq_true_iff.1 h with ⟨first, others⟩
    refine (sound.inner scope first fit).seq fun v t fit' one => ?_
    refine (ih others fit').seq fun vs u fit'' more => .pure fit'' ?_
    exact List.forall_mem_cons.2 ⟨one, more⟩

theorem evalPairs_upholds (scope : ScopeId) {table : Table Key Value} {ps : List (Expr × Expr)}
    (h : disciplinedPairs ps = true) (before : ∀ p ∈ table, p.2.fit = true) (fit : s.Fit) :
    (evalPairs (eval scope) table ps).Upholds State.Fit s fun t => ∀ p ∈ t, p.2.fit = true := by
  induction ps generalizing table s with
  | nil => exact .pure fit before
  | cons p ps ih =>
    rcases disciplinedPairs_cons_iff.1 h with ⟨first, second, others⟩
    refine (sound.inner scope first fit).seq fun k t fit' _ => ?_
    cases k.key? with
    | none => exact .fail fit'
    | some key =>
      refine (sound.inner scope second fit').seq fun v u fit'' value => ?_
      refine ih others (fun q here => ?_) fit''
      rcases Table.mem_insert here with rfl | old
      · exact value
      · exact before q old

variable {leaves : Bool}

/-- A marked value is not bound, so bindings stay fit. -/
theorem Statement.step_upholds (scope : ScopeId) {one : Statement}
    (h : one.disciplined leaves = true) (fit : s.Fit) :
    (one.step eval scope).Upholds State.Fit s fun result => ∀ v ∈ result, v.settled leaves = true := by
  cases one with
  | bind x value =>
    refine (sound scope value leaves s h fit).seq fun v t fit' settled => ?_
    by_cases marked : v.isReturned = true
    · rw [if_pos marked]
      exact .pure fit' fun _ same => Option.mem_some.1 same ▸ settled
    · rw [if_neg marked]
      have new := Value.fit_of_settled settled (Bool.eq_false_iff.2 marked)
      have bound : (Eval.bindName scope x v).Upholds State.Fit t fun _ => True :=
        .change (fit'.bind scope x new) trivial
      exact bound.seq fun _ u fit'' _ => .pure fit'' nofun
  | leave value =>
    rcases Bool.and_eq_true_iff.1 h with ⟨allowed, inner⟩
    refine (sound.inner scope inner fit).seq fun v t fit' whole => .pure fit' ?_
    intro _ same
    exact Option.mem_some.1 same ▸ Bool.and_eq_true_iff.2 ⟨allowed, whole⟩
  | expr value =>
    refine (sound scope value leaves s h fit).seq fun v t fit' settled => .pure fit' ?_
    exact fun _ same => Option.mem_some.1 same ▸ settled

theorem Statement.stepAll_upholds (scope : ScopeId) {last : Option Value} {block : Block}
    (h : disciplinedBlock leaves block = true) (before : ∀ v ∈ last, v.settled leaves = true)
    (fit : s.Fit) :
    (stepAll eval scope last block).Upholds State.Fit s
      fun result => ∀ v ∈ result, v.settled leaves = true := by
  induction block generalizing last s with
  | nil => exact .pure fit before
  | cons one rest ih =>
    rcases Bool.and_eq_true_iff.1 h with ⟨first, others⟩
    refine (Statement.step_upholds sound scope first fit).seq fun result t fit' settled => ?_
    split
    · exact .pure fit' settled
    · exact ih others settled fit'

theorem Block.step_upholds (scope : ScopeId) {block : Block}
    (h : disciplinedBlock leaves block = true) (fit : s.Fit) :
    (Block.step eval scope block).Upholds State.Fit s fun v => v.settled leaves = true := by
  have none : ∀ v ∈ (none : Option Value), v.settled leaves = true := nofun
  refine (Statement.stepAll_upholds sound scope h none fit).seq fun result t fit' settled => ?_
  cases result with
  | none => exact .pure fit' rfl
  | some v => exact .pure fit' (settled v rfl)

/-- The body may be left, and its value is taken out of the marker. -/
theorem Closure.step_upholds {f : Closure} {args : List Value}
    (h : disciplinedBlock true f.body = true) (given : ∀ v ∈ args, v.fit = true) (fit : s.Fit) :
    (f.step eval args).Upholds State.Fit s fun v => v.fit = true := by
  have entered : (Eval.change (·.addScope (f.frame args))).Upholds State.Fit s fun _ => True :=
    .change (fit.frame rfl given) trivial
  refine entered.seq fun scope t fit' _ => ?_
  exact (Block.step_upholds sound scope h fit').seq fun v u fit'' settled =>
    .pure fit'' (Value.fit_unwrap settled)

theorem Value.stepCall_upholds {callee : Value} {args : List Value} (whole : callee.fit = true)
    (given : ∀ v ∈ args, v.fit = true) (fit : s.Fit) :
    (callee.stepCall eval args).Upholds State.Fit s fun v => v.fit = true := by
  cases callee with
  | function _ f => exact Closure.step_upholds sound whole given fit
  | builtin b => exact b.call_upholds fit given
  | _ => exact .fail fit

omit sound in
theorem evalName_upholds (scope : ScopeId) (x : String) (fit : s.Fit) :
    (evalName scope x).Upholds State.Fit s fun v => v.fit = true := by
  have look : (Eval.look (·.lookup x scope)).Upholds State.Fit s
      fun found => ∀ v, found = some v → v.fit = true :=
    .look fit fun v bound => fit.lookup bound
  refine look.seq fun found t fit' whole => ?_
  cases found with
  | some v => exact .pure fit' (whole v rfl)
  | none =>
    cases Builtin.ofName? x with
    | some b => exact .pure fit' rfl
    | none => exact .fail fit'

/-- An expression that is no condition gives a fit value even where it may be left. -/
theorem Expr.step_upholds (scope : ScopeId) {e : Expr} (h : e.disciplined leaves = true)
    (fit : s.Fit) : (e.step eval scope).Upholds State.Fit s fun v => v.settled leaves = true := by
  have weaker : ∀ v : Value, v.fit = true → v.settled leaves = true := fun _ => Value.settled_of_fit
  cases e with
  | name x => exact (evalName_upholds scope x fit).mono weaker
  | int n => exact .pure fit rfl
  | str text => exact .pure fit rfl
  | bool b => exact .pure fit rfl
  | unary op a =>
    refine (sound.inner scope h fit).seq fun v t fit' _ => .ofExcept fit' fun w applied => ?_
    exact weaker w (Value.fit_of_plain (UnaryOp.apply_plain applied))
  | binary op a b =>
    rcases Bool.and_eq_true_iff.1 h with ⟨left, right⟩
    refine (sound.inner scope left fit).seq fun v t fit' _ => ?_
    refine (sound.inner scope right fit').seq fun w u fit'' _ => .ofExcept fit'' fun x applied => ?_
    exact weaker x (Value.fit_of_plain (BinaryOp.apply_plain applied))
  | cond test yes no =>
    rcases Expr.disciplined_cond_iff.1 h with ⟨tested, branch, other⟩
    refine (sound.inner scope tested fit).seq fun v t fit' _ => ?_
    split
    · exact Block.step_upholds sound scope branch fit'
    · cases no with
      | none => exact .pure fit' rfl
      | some no => exact Block.step_upholds sound scope (other no rfl) fit'
  | fn params body =>
    have made : (Eval.newFunction ⟨params, body, scope⟩).Upholds State.Fit s fun v => v.fit = true :=
      .change (fit.of_scopes rfl) h
    exact made.mono weaker
  | array es =>
    refine (evalAll_upholds sound scope h fit).seq fun vs t fit' elements => ?_
    exact (newArray_upholds fit' elements).mono weaker
  | index a i =>
    rcases Bool.and_eq_true_iff.1 h with ⟨left, right⟩
    refine (sound.inner scope left fit).seq fun v t fit' whole => ?_
    refine (sound.inner scope right fit').seq fun w u fit'' _ => .ofExcept fit'' fun x found => ?_
    exact weaker x (Value.elementAt_fit whole found)
  | hash ps =>
    have none : ∀ p ∈ ([] : Table Key Value), p.2.fit = true := List.forall_mem_nil _
    refine (evalPairs_upholds sound scope h none fit).seq fun table t fit' values => ?_
    have made : (Eval.newHash table).Upholds State.Fit t fun v => v.fit = true :=
      .change (fit'.of_scopes rfl) (fitPairs_iff.2 values)
    exact made.mono weaker
  | call f args =>
    rcases Bool.and_eq_true_iff.1 h with ⟨callee, given⟩
    refine (sound.inner scope callee fit).seq fun v t fit' whole => ?_
    split
    · refine (evalAll_upholds sound scope given fit').seq fun vs u fit'' elements => ?_
      exact (Value.stepCall_upholds sound whole elements fit'').mono weaker
    · exact .fail fit'

end

/-! ## Every depth -/

theorem Expr.eval_disciplined (n : Nat) : (Expr.eval n).Disciplined := by
  induction n with
  | zero =>
    intro scope e leaves s _ _ r t ends
    cases ends
  | succ n ih => exact fun scope e leaves s h fit => Expr.step_upholds ih scope h fit

end Script
