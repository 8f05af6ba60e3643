import Script.Proofs.Eval.Frame
import Script.Proofs.Eval.Task

/-!
# Statements in sequence

Statements run one after another until one of them gives a marked value or fails; then the rest is
left alone. So a sequence that is cut in two runs like its first part and, if that has not stopped,
goes on like its second one: `Statement.stepAll_append`. A sequence that stops does so at one of its
statements: `Statement.exists_stop`.
-/

namespace Script

/-- Statements with this outcome are the last ones that run. -/
def Stops : Except Fault (Option Value) → Prop
  | .ok result => result.any Value.isReturned = true
  | .error _ => True

namespace Statement

variable {eval : Evaluator} {scope : ScopeId} {last : Option Value}

/-- The result of earlier statements matters only where no others follow. -/
theorem stepAll_of_ne_nil {block : Block} (some : block ≠ []) (last last' : Option Value) :
    stepAll eval scope last block = stepAll eval scope last' block := by
  cases block with
  | nil => exact absurd rfl some
  | cons one rest => rfl

theorem stepAll_append (unmarked : last.any Value.isReturned = false) (p q : Block) :
    stepAll eval scope last (p ++ q) = (do
      let result ← stepAll eval scope last p
      if result.any Value.isReturned then pure result else stepAll eval scope result q) := by
  induction p generalizing last with
  | nil => simp [stepAll, unmarked]
  | cons one rest ih =>
    calc stepAll eval scope last (one :: rest ++ q)
      _ = one.step eval scope >>= fun result =>
            if result.any Value.isReturned then pure result
            else stepAll eval scope result (rest ++ q) := rfl
      _ = one.step eval scope >>= fun result =>
            (if result.any Value.isReturned then pure result else stepAll eval scope result rest) >>=
              fun result =>
                if result.any Value.isReturned then pure result
                else stepAll eval scope result q := by
          refine bind_congr fun result => ?_
          cases marked : result.any Value.isReturned with
          | true => simp [marked]
          | false => simpa [marked] using ih marked
      _ = _ := (bind_assoc _ _ _).symm

/-- Statements that stop do so at one of them, which begins where those before it have ended. -/
theorem exists_stop {block : Block} {s t : State} {r : Except Fault (Option Value)}
    (unmarked : last.any Value.isReturned = false)
    (ends : stepAll eval scope last block s = some (r, t)) (stops : Stops r) :
    ∃ before one after result u, block = before ++ one :: after ∧
      stepAll eval scope last before s = some (.ok result, u) ∧
      result.any Value.isReturned = false ∧ one.step eval scope u = some (r, t) := by
  induction block generalizing last s with
  | nil =>
    cases ends
    exact absurd stops (by simp [Stops, unmarked])
  | cons one rest ih =>
    rw [stepAll, Eval.bind_apply] at ends
    rcases first : one.step eval scope s with _ | ⟨e | result, u⟩
    · rw [first] at ends
      cases ends
    · rw [first] at ends
      cases ends
      exact ⟨[], one, rest, last, s, rfl, rfl, unmarked, first⟩
    · rw [first] at ends
      simp only at ends
      split at ends
      · cases ends
        exact ⟨[], one, rest, last, s, rfl, rfl, unmarked, first⟩
      · rename_i goes
        have unmarked' := Bool.eq_false_iff.2 goes
        rcases ih unmarked' ends with ⟨before, other, after, last', v, rfl, run, plain, stop⟩
        refine ⟨one :: before, other, after, last', v, rfl, ?_, plain, stop⟩
        rw [stepAll, Eval.bind_of_ok first, if_neg goes]
        exact run

end Statement

/-! ## Programs -/

/-- Run in the scope from the state `s`, the program ends with `result` and leaves `t`. -/
def Program.Gives (program : Program) (scope : ScopeId) (s : State) (result : Option Value)
    (t : State) : Prop :=
  ∃ n, program.run n scope s = some (result, t)

namespace Program

variable {n : Nat} {scope : ScopeId} {p q : Program} {s t : State}

/-- What a program gives for the outcome of its statements. -/
def resultOf : Except Fault (Option Value) → Option Value
  | .ok result => result.map Value.unwrap
  | .error e => some (.error e)

theorem run_of_ends {r : Except Fault (Option Value)}
    (ends : Statement.runAll n scope p s = some (r, t)) :
    p.run n scope s = some (resultOf r, t) := by
  unfold run
  rw [ends]
  cases r <;> rfl

/-- A program ends where its statements do. -/
theorem gives_iff {result : Option Value} :
    p.Gives scope s result t ↔ ∃ r, Ends (.body scope p) s r t ∧ resultOf r = result := by
  constructor
  · rintro ⟨n, whole⟩
    rcases run_ends whole with ⟨r, ends, rfl⟩ | ⟨e, ends, rfl⟩
    · exact ⟨.ok r, ends, rfl⟩
    · exact ⟨.error e, ends, rfl⟩
  · rintro ⟨r, ⟨n, ends⟩, rfl⟩
    exact ⟨n, run_of_ends ends⟩

theorem exists_gives_iff :
    (∃ result t, p.Gives scope s result t) ↔ ∃ r t, Ends (.body scope p) s r t := by
  constructor
  · rintro ⟨result, t, gives⟩
    rcases gives_iff.1 gives with ⟨r, ends, -⟩
    exact ⟨r, t, ends⟩
  · rintro ⟨r, t, ends⟩
    exact ⟨_, t, gives_iff.2 ⟨r, ends, rfl⟩⟩

/-- Behind statements that have come to their end, others go on. -/
theorem run_append_of_ends {result : Option Value}
    (ends : Statement.runAll n scope p s = some (.ok result, t))
    (unmarked : result.any Value.isReturned = false) (others : q ≠ []) :
    (p ++ q).run n scope s = q.run n scope t := by
  have whole : Statement.runAll n scope (p ++ q) s = Statement.runAll n scope q t :=
    calc Statement.runAll n scope (p ++ q) s
      _ = (if result.any Value.isReturned then pure result
            else Statement.stepAll (Expr.eval n) scope result q) t := by
          rw [Statement.runAll, Statement.stepAll_append rfl]
          exact Eval.bind_of_ok ends
      _ = Statement.stepAll (Expr.eval n) scope result q t := by simp [unmarked]
      _ = Statement.runAll n scope q t := by
          rw [Statement.stepAll_of_ne_nil others result none, Statement.runAll]
  unfold run
  rw [whole]

/-- Behind statements that have stopped, nothing goes on. -/
theorem run_append_of_stops {r : Except Fault (Option Value)}
    (ends : Statement.runAll n scope p s = some (r, t)) (stops : Stops r) :
    (p ++ q).run n scope s = p.run n scope s := by
  have whole : Statement.runAll n scope (p ++ q) s = some (r, t) := by
    rw [Statement.runAll, Statement.stepAll_append rfl, Eval.bind_apply]
    rw [Statement.runAll] at ends
    rw [ends]
    cases r with
    | error e => rfl
    | ok result => simp [show result.any Value.isReturned = true from stops]
  rw [run_of_ends whole, run_of_ends ends]

end Program

end Script
