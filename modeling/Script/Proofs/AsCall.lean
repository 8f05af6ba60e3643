import Script.Proofs.Eval.Faultless
import Script.Proofs.Eval.Mirror
import Script.Proofs.Eval.Sequence

/-!
# A program as the body of a function

A program can be written as the body of a function without parameters that is called on the spot. The
call runs in a scope of its own, inside the one in which the program would have run, and in which
nothing is bound now. So both runs are in lockstep, with every scope and every object one place further
on in the call. They end differently: the call hands a fault on, where the program has it as its value,
and gives `null` where the program has no value. Main statement: `Program.run_iff_call`.
-/

namespace Script

/-- The call of a function with the program as its body. -/
def Program.asCall (program : Program) : Expr :=
  .call (.fn [] program) []

/-- What the program gave, leaving `t`, is what the call gave, leaving `t'`. -/
structure SameOutcome (result : Option Value) (t : State) (r : Except Fault Value) (t' : State) :
    Prop where
  printed : t'.printed = t.printed
  /-- The call fails where the program has a fault as its value, and only there. -/
  fault : ∀ e, r = .error e ↔ result = some (.error e)
  null : result = none → r = .ok .null
  value : ∀ v, result = some v → v.isError = false →
    ∃ w, r = .ok w ∧ w.type = v.type ∧ w.text = v.text
  /-- The scope around the call is as empty as it was. -/
  around : t'.scopes[State.root]? = some ⟨[], none⟩

/-! ## The scope of the call -/

/-- The state in which the body of the call begins. -/
def State.entered : State :=
  ⟨#[⟨[], none⟩, ⟨[], some State.root⟩], 1, ""⟩

/-- What a call makes of the outcome of its body. -/
def Closure.outcome (r : Except Fault (Option Value)) : Except Fault Value :=
  r.map fun result => (result.getD .null).unwrap

namespace Program

/-- The call runs its body in the new scope. -/
theorem eval_asCall (program : Program) (n : Nat) :
    Expr.eval (n + 2) State.root program.asCall .initial =
      (Statement.runAll (n + 1) 1 program .entered).map (Prod.map Closure.outcome id) := by
  change (Block.step (Expr.eval (n + 1)) 1 program >>= fun v => pure v.unwrap) .entered = _
  rw [Block.step, bind_assoc, Eval.bind_apply, Statement.runAll]
  rcases Statement.stepAll (Expr.eval (n + 1)) 1 none program .entered with _ | ⟨_ | result, t⟩
  · rfl
  · rfl
  · rfl

/-- The call ends where the body does. -/
theorem ends_asCall_iff {program : Program} {r : Except Fault Value} {t : State} :
    Ends (.expr State.root program.asCall) .initial r t ↔
      ∃ q, Ends (.body 1 program) .entered q t ∧ Closure.outcome q = r := by
  constructor
  · rintro ⟨n, ends⟩
    have deeper := Expr.eval_mono (Nat.le_add_right n 2) State.root program.asCall _ _ ends
    rw [eval_asCall] at deeper
    rcases Option.map_eq_some_iff.1 deeper with ⟨⟨q, u⟩, body, same⟩
    cases same
    exact ⟨q, ⟨n + 1, body⟩, rfl⟩
  · rintro ⟨q, ⟨n, body⟩, rfl⟩
    have deeper := Statement.runAll_mono (Nat.le_succ n) 1 program _ _ body
    refine ⟨n + 2, ?_⟩
    rw [Task.eval, eval_asCall, deeper]
    rfl

end Program

/-! ## Lockstep -/

/-- Takes everything one place further on. -/
def Renaming.further : Renaming :=
  ⟨(· + 1), (· + 1)⟩

theorem Renaming.further_fits : further.Fits .faultless (some State.root) .initial where
  object _ _ := Nat.succ.inj
  order _ _ _ _ := Nat.succ_lt_succ_iff
  ground := by
    intro g lies i _
    cases lies
    exact Nat.succ_pos i
  new _ _ := trivial
  nextScope _ _ := rfl
  nextObject _ _ := rfl

/-- The run of the program and that of the body, on their way. -/
abbrev Abreast : State → State → Prop :=
  Tracks .faultless .further (some State.root) .initial .entered

theorem abreast_entered : Abreast .initial .entered := by
  refine .start ⟨fun i _ => ?_, fun g lies => ?_⟩ rfl rfl
  · cases i with
    | zero => exact .some ⟨fun _ _ => rfl, nofun, rfl, nofun⟩
    | succ i => exact .none
  · cases lies
    rfl

/-- Where both runs have ended, program and call have the same outcome. -/
theorem Abreast.sameOutcome {r : Except Fault (Option Value)} {t t' : State} (abreast : Abreast t t')
    (whole : ∀ result, r = .ok result → ∀ v ∈ result, Realm.faultless.value v) :
    SameOutcome (Program.resultOf r) t (Closure.outcome (r.map (Option.map (Value.rename .further))))
      t' := by
  have printed : t'.printed = t.printed := by
    rcases abreast.printed with ⟨out, same, same'⟩
    exact same'.trans same.symm
  have around := abreast.scopes.ground State.root rfl
  match r with
  | .error e =>
    refine ⟨printed, fun e' => ?_, nofun, fun v same plain => ?_, around⟩
    · simp [Closure.outcome, Program.resultOf, Except.map]
    · cases same
      cases plain
  | .ok none => exact ⟨printed, fun e => ⟨nofun, nofun⟩, fun _ => rfl, nofun, around⟩
  | .ok (some v) =>
    -- A value never is a fault, so the program has one only if it failed.
    rw [Realm.value_faultless] at whole
    have plain := (whole _ rfl v rfl).unwrap.isError
    refine ⟨printed, fun e => ⟨nofun, fun same => ?_⟩, nofun, fun w same _ => ?_, around⟩
    · have same : v.unwrap = .error e := Option.some.inj same
      rw [same] at plain
      cases plain
    · cases same
      exact ⟨v.unwrap.rename .further, congrArg Except.ok (Value.unwrap_rename .further v),
        Value.type_rename _ _, Value.text_rename _ _⟩

/-! ## Programs -/

namespace Program

/-- A program and the call of a function with the same body end both or neither, and with the same
outcome. -/
theorem run_iff_call (program : Program) :
    ((∃ result t, program.Gives State.root .initial result t) ↔
      ∃ r t, Ends (.expr State.root program.asCall) .initial r t) ∧
    ∀ result t r t', program.Gives State.root .initial result t →
      Ends (.expr State.root program.asCall) .initial r t' → SameOutcome result t r t' := by
  have mirror : Realm.faultless.Mirror .further Abreast := Tracks.mirror Renaming.further_fits
  have inside : Realm.faultless.scope State.root := trivial
  have names : ∀ x ∈ program.names, Realm.faultless.name x := fun _ _ => trivial
  rcases Ends.body_lockstep mirror abreast_entered inside names with ⟨both, same⟩
  refine ⟨exists_gives_iff.trans (both.trans ?_), ?_⟩
  · constructor
    · rintro ⟨q, t, body⟩
      exact ⟨_, t, ends_asCall_iff.2 ⟨q, body, rfl⟩⟩
    · rintro ⟨r, t, call⟩
      rcases ends_asCall_iff.1 call with ⟨q, body, -⟩
      exact ⟨q, t, body⟩
  · intro result t r t' gives call
    rcases gives_iff.1 gives with ⟨q, ends, rfl⟩
    rcases ends_asCall_iff.1 call with ⟨q', body, rfl⟩
    rcases same q t q' t' ends body with ⟨rfl, abreast, whole⟩
    exact Abreast.sameOutcome abreast whole

/-- For example, a `return` ends the program and the body alike, and what was bound stays inside. -/
theorem run_iff_call_return :
    let program : Program :=
      [.bind "a" (.int 1), .leave (.binary .add (.name "a") (.int 1)), .expr (.name "b")]
    ∃ w t, Ends (.expr State.root program.asCall) .initial (.ok w) t ∧ w.type = .int ∧
      w.text = "2" ∧ t.scopes[State.root]? = some ⟨[], none⟩ := by
  intro program
  have gives : program.Gives State.root .initial (some (.int 2)) ⟨#[⟨[("a", .int 1)], none⟩], 0, ""⟩ :=
    ⟨2, by with_unfolding_all rfl⟩
  rcases run_iff_call program with ⟨both, same⟩
  rcases both.1 ⟨_, _, gives⟩ with ⟨r, t, ends⟩
  have outcome := same _ _ r t gives ends
  rcases outcome.value _ rfl rfl with ⟨w, rfl, type, text⟩
  exact ⟨w, t, ends, type, text.trans (by decide), outcome.around⟩

end Program
end Script
