import Script.Session
import Script.Proofs.Eval.Sequence

/-!
# Running in pieces

A program may be cut anywhere: run piece by piece on one state it does what it does in one go. A piece
that stops, with a `return` or a fault, stops the whole, and what was bound until then stays bound.
Lines that are no programs do nothing at all, so they can be left out of a session. Main statement:
`Program.run_in_pieces`.
-/

namespace Script

/-! ## Programs in two pieces -/

/-- What there is to say about the program as the first piece of a longer one. -/
structure Program.Leads (p : Program) (scope : ScopeId) (s : State) : Prop where
  /-- The whole does not end unless its first piece does. -/
  first : ∀ (q : Program) result u, Gives (p ++ q) scope s result u → ∃ r t, Ends (.body scope p) s r t
  /-- If the first piece comes to its end, the second one goes on from the state it leaves. -/
  goesOn : ∀ result t, Ends (.body scope p) s (.ok result) t →
    result.any Value.isReturned = false →
    p.Gives scope s result t ∧
      ∀ q : Program, q ≠ [] → ∀ result' u,
        Gives (p ++ q) scope s result' u ↔ q.Gives scope t result' u
  /-- If the first piece stops, the second one does not matter. -/
  stops : ∀ r t, Ends (.body scope p) s r t → Stops r →
    p.Gives scope s (resultOf r) t ∧
      ∀ (q : Program) result' u, Gives (p ++ q) scope s result' u ↔ p.Gives scope s result' u
  /-- What the statements before the one that stops have bound is still bound in the end. -/
  kept : ∀ r t, Ends (.body scope p) s r t → Stops r →
    ∃ before one after result u, p = before ++ one :: after ∧
      Ends (.body scope before) s (.ok result) u ∧ result.any Value.isReturned = false ∧
      Ends (.statement scope one) u r t ∧ Frame scope u t

namespace Program

variable {p : Program} {scope : ScopeId} {s t : State}

/-- Where the whole ends, the first piece does. -/
theorem ends_of_append {n : Nat} {q : Program} {result : Option Value} {u : State}
    (whole : (p ++ q).run n scope s = some (result, u)) :
    ∃ r t, Ends (.body scope p) s r t := by
  rcases first : Statement.runAll n scope p s with _ | ⟨r, t⟩
  · unfold run at whole
    rw [Statement.runAll] at first
    rw [Statement.runAll, Statement.stepAll_append rfl, Eval.bind_apply, first] at whole
    cases whole
  · exact ⟨r, t, n, first⟩

/-- Two runs at the depth at which both end. -/
theorem gives_append_iff {q p' : Program} {t' : State} {r : Except Fault (Option Value)}
    (ends : Ends (.body scope p) s r t)
    (same : ∀ n, Statement.runAll n scope p s = some (r, t) →
      (p ++ q).run n scope s = p'.run n scope t') (result : Option Value) (u : State) :
    Gives (p ++ q) scope s result u ↔ p'.Gives scope t' result u := by
  rcases ends with ⟨m, first⟩
  have deeper (n : Nat) : Statement.runAll (max m n) scope p s = some (r, t) :=
    Statement.runAll_mono (Nat.le_max_left m n) scope p s _ first
  constructor
  · rintro ⟨n, whole⟩
    refine ⟨max m n, ?_⟩
    rw [← same _ (deeper n)]
    exact run_mono (Nat.le_max_right m n) scope _ whole
  · rintro ⟨n, rest⟩
    refine ⟨max m n, ?_⟩
    rw [same _ (deeper n)]
    exact run_mono (Nat.le_max_right m n) scope _ rest

theorem leads (p : Program) (scope : ScopeId) (s : State) : p.Leads scope s where
  first := by
    rintro q result u ⟨n, whole⟩
    exact ends_of_append whole
  goesOn := by
    intro result t ends unmarked
    refine ⟨gives_iff.2 ⟨.ok result, ends, ?_⟩, fun q others => ?_⟩
    · cases result with
      | none => rfl
      | some v => cases v <;> first | rfl | cases unmarked
    · exact gives_append_iff ends fun n first => run_append_of_ends first unmarked others
  stops := by
    intro r t ends stops
    refine ⟨gives_iff.2 ⟨r, ends, rfl⟩, fun q => ?_⟩
    exact gives_append_iff ends fun n first => run_append_of_stops first stops
  kept := by
    rintro r t ⟨n, first⟩ stops
    rcases Statement.exists_stop rfl first stops with
      ⟨before, one, after, result, u, whole, run, unmarked, stop⟩
    have framed := Expr.eval_keeps Frame.effects n
    have frame := Statement.step_keeps Frame.effects framed scope one u r t stop
    exact ⟨before, one, after, result, u, whole, ⟨n, run⟩, unmarked, ⟨n, stop⟩, frame⟩

end Program

/-! ## Lines -/

/-- Is the text a program? -/
def isProgram (line : String) : Bool :=
  (Program.parse line).isOk

/-- Runs lines one after another, and tells what each of them shows. -/
def showLines (n : Nat) (scope : ScopeId) :
    List String → State → Option (List (String × Option String) × State)
  | [], s => some ([], s)
  | line :: rest, s =>
    match runText n scope line s with
    | none => none
    | some (answer, t) =>
      match showLines n scope rest t with
      | none => none
      | some (others, u) => some ((line, answer.shown) :: others, u)

/-- A text that is no program is refused, and the state stays as it was. -/
theorem runText_of_not_isProgram {line : String} (refused : isProgram line = false) (n : Nat)
    (scope : ScopeId) (s : State) :
    ∃ errors, Program.parse line = .error errors ∧
      runText n scope line s = some (.rejected errors, s) := by
  unfold isProgram at refused
  unfold runText
  cases read : Program.parse line with
  | error errors => exact ⟨errors, rfl, rfl⟩
  | ok program =>
    rw [read] at refused
    cases refused

/-- Without the lines that are no programs, the others show the same and leave the same state. -/
theorem showLines_filter (n : Nat) (scope : ScopeId) (lines : List String) (s : State) :
    showLines n scope (lines.filter isProgram) s =
      (showLines n scope lines s).map fun (shown, t) =>
        (shown.filter fun line => isProgram line.1, t) := by
  induction lines generalizing s with
  | nil => rfl
  | cons line rest ih =>
    cases accepted : isProgram line with
    | false =>
      rcases runText_of_not_isProgram accepted n scope s with ⟨errors, -, unchanged⟩
      rw [List.filter_cons_of_neg (by simp [accepted]), ih s, showLines, unchanged]
      dsimp only
      rcases showLines n scope rest s with _ | ⟨others, u⟩
      · rfl
      · simp [accepted]
    | true =>
      rw [List.filter_cons_of_pos accepted, showLines, showLines]
      rcases runText n scope line s with _ | ⟨answer, t⟩
      · rfl
      · dsimp only
        rw [ih t]
        rcases showLines n scope rest t with _ | ⟨others, u⟩
        · rfl
        · simp [accepted]

/-! ## Pieces -/

/-- A program runs piece by piece as it does in one go, in every scope and from every state, and lines
that are no programs can be left out. -/
theorem Program.run_in_pieces (n : Nat) (scope : ScopeId) (s : State) :
    (∀ p : Program, p.Leads scope s) ∧
    (∀ line, isProgram line = false → ∃ errors, Program.parse line = .error errors ∧
      runText n scope line s = some (.rejected errors, s)) ∧
    ∀ lines, showLines n scope (lines.filter isProgram) s =
      (showLines n scope lines s).map fun (shown, t) =>
        (shown.filter fun line => isProgram line.1, t) :=
  ⟨fun p => p.leads scope s, fun _ refused => runText_of_not_isProgram refused n scope s,
    fun lines => showLines_filter n scope lines s⟩

/-- For example, nothing runs behind a fault, and the name bound before it stays bound. -/
theorem Program.run_in_pieces_fault :
    let p : Program := [.bind "a" (.int 1), .expr (.binary .add (.name "a") (.bool true))]
    let e : Fault := .typeMismatch .int .add .bool
    let t : State := ⟨#[⟨[("a", .int 1)], none⟩], 0, ""⟩
    Ends (.body State.root p) .initial (.error e) t ∧
      ∀ q : Program, Gives (p ++ q) State.root .initial (some (.error e)) t := by
  intro p e t
  have ends : Ends (.body State.root p) .initial (.error e) t := ⟨2, by with_unfolding_all rfl⟩
  rcases ((Program.run_in_pieces 0 State.root .initial).1 p).stops _ t ends trivial with
    ⟨alone, whole⟩
  exact ⟨ends, fun q => (whole q _ _).2 alone⟩

end Script
