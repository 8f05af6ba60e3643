import Script.CommandLine
import Script.Proofs.Eval.Failure
import Script.Proofs.Eval.Faultless
import Script.Proofs.Eval.Sequence

/-!
# Faults are never caught

In a session that begins in the initial state no program gets hold of a fault: none is bound, none
stands in an array or a hash, none is handed to a function or comes back from one. A fault ends the
program at the first statement that fails, and becomes its value. So whoever looks at the value knows
whether there was a fault, as the command line does for its exit code.

Main statement: `faultsEscape`.
-/

namespace Script

/-! ## The statement that fails -/

/-- Run in the state `s`, the program fails at the statement `one`: those before it have ended in `u`,
it fails with `e` and leaves `t`, and nothing begins behind it. -/
structure Program.FailsAt (program : Program) (s : State) (one : Statement) (u : State) (e : Fault)
    (t : State) : Prop where
  before : ∃ before after last, program = before ++ one :: after ∧
    Ends (.body State.root before) s (.ok last) u ∧ last.any Value.isReturned = false
  fails : Ends (.statement State.root one) u (.error e) t
  last : ∀ task w, ¬ Follows (.body State.root program) s (.statement State.root one) u task w

namespace Program

variable {program : Program} {s t u : State} {e : Fault}

/-- A program that fails does so at one of its statements. -/
theorem ends_error_iff :
    Ends (.body State.root program) s (.error e) t ↔ ∃ one u, program.FailsAt s one u e t := by
  constructor
  · rintro ⟨n, ends⟩
    rcases Statement.exists_stop rfl ends trivial with
      ⟨before, one, after, last, u, rfl, first, unmarked, fails⟩
    have stops : Ends (.statement State.root one) u (.error e) t := ⟨n, fails⟩
    exact ⟨one, u, ⟨before, after, last, rfl, ⟨n, first⟩, unmarked⟩, stops,
      fun _ _ => stops.not_follows⟩
  · rintro ⟨one, u, ⟨before, after, last, rfl, ends, unmarked⟩, fails, -⟩
    have first : Ends (.statements State.root none before) s (.ok last) u := ends
    rcases first.within_statements unmarked (one :: after) with ⟨last', within⟩
    have reached := (within.trans (.step .statement rfl (.refl _ _))).reaches
    exact (Reaches.step .body reached).fails fails

/-- Only a fault makes a program give one. -/
theorem Gives.error_iff {result : Option Value} (gives : program.Gives State.root s result t)
    (bound : s.Bound Value.Faultless) :
    result = some (.error e) ↔ Ends (.body State.root program) s (.error e) t := by
  rcases gives_iff.1 gives with ⟨r, ends, rfl⟩
  constructor
  · intro same
    cases r with
    | error e' =>
      cases same
      exact ends
    | ok result =>
      -- A value that becomes a fault when it is unwrapped would have had one in it.
      rcases Option.map_eq_some_iff.1 same with ⟨v, rfl, unwrapped⟩
      have whole : v.Faultless := (ends.faultless trivial bound).2 _ rfl v rfl
      have plain := whole.unwrap.isError
      rw [unwrapped] at plain
      cases plain
  · intro fails
    rw [(ends.unique fails).1]
    rfl

end Program

/-! ## Sessions -/

section

variable {programs : List Program} {program : Program} {task : Task} {s : State}

theorem Ran.faultless (ran : Ran programs s) : s.Bound Value.Faultless := by
  induction ran with
  | nil => exact .initial
  | snoc _ ends ih =>
    rcases Program.run_ends ends with ⟨r, whole, -⟩ | ⟨e, whole, -⟩
    · exact (whole.faultless trivial ih).1
    · exact (whole.faultless trivial ih).1

theorem Runs.faultless (runs : Runs programs program s) : s.Bound Value.Faultless := by
  rcases runs with ⟨before, after, -, ran⟩
  exact ran.faultless

theorem Meets.faultless (met : Meets programs task s) :
    task.BeginsWith Value.Faultless ∧ s.Bound Value.Faultless := by
  rcases met with ⟨program, start, runs, reached⟩
  exact reached.faultless trivial runs.faultless

end

/-- In the session of the programs every fault ends its program, and none is ever at hand. -/
structure FaultsEscape (programs : List Program) : Prop where
  /-- When a task begins, no scope binds a fault, and the task has none at hand. -/
  begins : ∀ task s, Meets programs task s →
    task.BeginsWith Value.Faultless ∧ s.Bound Value.Faultless
  /-- When it ends, no scope binds a fault, and no value that it gives has one in it. -/
  ends : ∀ task s r t, Meets programs task s → Ends task s r t →
    t.Bound Value.Faultless ∧ ∀ x, r = .ok x → task.EndsWith Value.Faultless x
  /-- No fault is handed to what is called, so `puts` prints none, and none comes back. -/
  calls : ∀ scope f args s callee t vs u, Meets programs (.expr scope (.call f args)) s →
    Ends (.expr scope f) s (.ok callee) t → Ends (.all scope args) t (.ok vs) u →
    (∀ v ∈ vs, v.Faultless) ∧ ∀ n v w, callee.call n vs u = some (.ok v, w) → v.Faultless
  /-- Wherever something fails, its program gives this fault and leaves the state as it is. -/
  uncaught : ∀ program s task u e t, Runs programs program s →
    Reaches (.body State.root program) s task u → Ends task u (.error e) t →
    program.Gives State.root s (some (.error e)) t
  /-- A program gives a fault if and only if it is that of the first statement that fails. -/
  results : ∀ program s result t, Runs programs program s → program.Gives State.root s result t →
    ∀ e, result = some (.error e) ↔ ∃ one u, program.FailsAt s one u e t
  /-- In any other result no fault stands. -/
  others : ∀ program s v t, Runs programs program s → program.Gives State.root s (some v) t →
    v.isError = false → v.Faultless

/-- The exit code of a program that ends is 1 if and only if there was a fault. -/
def CommandLine.ExitCodeTells (source : String) : Prop :=
  ∀ pipe program result t, Program.parse source = .ok program →
    program.run depthLimit State.root .initial = some (result, t) →
    ((runScript pipe source).code = 1 ↔
      ∃ e, Ends (.body State.root program) .initial (.error e) t)

theorem CommandLine.exitCode_tells (source : String) : ExitCodeTells source := by
  intro pipe program result t parsed ends
  have gives : program.Gives State.root .initial result t := ⟨depthLimit, ends⟩
  have fault (e : Fault) := gives.error_iff (e := e) .initial
  have answer : runText depthLimit State.root source .initial = some (.finished result, t) := by
    rw [runText, parsed]
    simp only [ends]
  simp only [runScript, answer, ← fault]
  cases result with
  | none => simp
  | some v =>
    cases v with
    | error e => simp [Value.isError]
    | _ => cases pipe <;> simp [Value.isError]

theorem faultsEscape (programs : List Program) (source : String) :
    FaultsEscape programs ∧ CommandLine.ExitCodeTells source := by
  refine ⟨?_, CommandLine.exitCode_tells source⟩
  constructor
  case begins => exact fun task s met => met.faultless
  case ends =>
    intro task s r t met ends
    rcases met.faultless with ⟨start, bound⟩
    exact ends.faultless start bound
  case calls =>
    intro scope f args s callee t vs u met callable given
    rcases callable.faultless trivial met.faultless.2 with ⟨bound, whole⟩
    rcases given.faultless trivial bound with ⟨bound', wholes⟩
    exact ⟨wholes vs rfl, fun n v w called =>
      Value.call_faultless called (whole callee rfl) (wholes vs rfl) bound'⟩
  case uncaught =>
    intro program s task u e t runs reached fails
    exact Program.gives_iff.2 ⟨.error e, reached.fails fails, rfl⟩
  case results =>
    intro program s result t runs gives e
    exact (gives.error_iff runs.faultless).trans Program.ends_error_iff
  case others =>
    intro program s v t runs gives other
    rcases Program.gives_iff.1 gives with ⟨r, ends, result⟩
    cases r with
    | error e =>
      cases result
      cases other
    | ok r =>
      rcases Option.map_eq_some_iff.1 result with ⟨w, rfl, rfl⟩
      have whole : w.Faultless := (ends.faultless trivial runs.faultless).2 _ rfl w rfl
      exact whole.unwrap

end Script
