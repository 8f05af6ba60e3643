import Mathlib.Data.List.Induction
import Script.Proofs.Eval.Time
import Script.Proofs.Eval.Sequence

/-!
# Every object is made once

Arrays, hashes and functions are made by expressions: by their literals, and arrays by built-in
functions too. `Makes scope e s v` says that the expression, begun in `s`, makes the object `v` when all
its parts have ended. An object gets the identity that is next, and identities are never given back, so
the tasks of a run make objects of different identities: `Bears.once` for what is made on the way of one
task, `Born.once` for what is made in a session.
-/

namespace Script

/-! ## Making an object -/

/-- The identity of an array, a hash or a function. -/
def Value.object? : Value → Option ObjectId
  | .array id _ | .hash id _ | .function id _ => some id
  | _ => none

inductive Makes (scope : ScopeId) : Expr → State → Value → Prop
  | fn {params body s} :
      Makes scope (.fn params body) s (.function s.fresh ⟨params, body, scope⟩)
  | array {es s vs t} : Ends (.all scope es) s (.ok vs) t →
      Makes scope (.array es) s (.array t.fresh vs)
  | hash {ps s table t} : Ends (.pairs scope [] ps) s (.ok table) t →
      Makes scope (.hash ps) s (.hash t.fresh table)
  | builtin {f args s b t vs u ws} : Ends (.expr scope f) s (.ok (.builtin b)) t →
      Ends (.all scope args) t (.ok vs) u →
      b.call vs u = some (.ok (.array u.fresh ws), u.useFresh) →
      Makes scope (.call f args) s (.array u.fresh ws)

section

variable {scope : ScopeId} {e : Expr} {s : State} {v w : Value} {i : ObjectId}

/-- The expression ends with the object, the last one that has been made then. -/
theorem Makes.ends (makes : Makes scope e s v) :
    ∃ i t, v.object? = some i ∧ Ends (.expr scope e) s (.ok v) t ∧ t.fresh = i + 1 := by
  cases makes with
  | fn => exact ⟨_, _, rfl, ⟨1, rfl⟩, rfl⟩
  | array elements => exact ⟨_, _, rfl, elements.array, rfl⟩
  | hash pairs => exact ⟨_, _, rfl, pairs.hash, rfl⟩
  | builtin callee given called => exact ⟨_, _, rfl, callee.applied rfl given (.builtin called), rfl⟩

/-- Each part of the expression has ended before the object is made. -/
theorem Makes.parts (makes : Makes scope e s v) {b : Task} {t : State}
    (part : Part (.expr scope e) s b t) (made : v.object? = some i) :
    ∃ q u, Ends b t q u ∧ u.fresh ≤ i := by
  cases makes with
  | fn => cases part
  | array elements =>
    cases part
    cases made
    exact ⟨_, _, elements, Nat.le_refl _⟩
  | hash pairs =>
    cases part
    cases made
    exact ⟨_, _, pairs, Nat.le_refl _⟩
  | builtin callee given called =>
    cases made
    cases part with
    | callee => exact ⟨_, _, callee, given.grows.fresh⟩
    | arguments callee' =>
      cases (callee.unique callee').2
      exact ⟨_, _, given, Nat.le_refl _⟩
    -- A built-in function has no body.
    | call callee' => cases (callee.unique callee').1

theorem Makes.unique (first : Makes scope e s v) (second : Makes scope e s w) : v = w := by
  rcases first.ends with ⟨_, _, _, ends, _⟩
  rcases second.ends with ⟨_, _, _, ends', _⟩
  exact Except.ok.inj (ends.unique ends').1

end

/-! ## Objects made on the way -/

/-- On the way of the task the object is made. -/
def Bears (a : Task) (s : State) (v : Value) : Prop :=
  ∃ scope e t, Reaches a s (.expr scope e) t ∧ Makes scope e t v

namespace Bears

variable {a b c : Task} {s t u : State} {v w : Value} {i : ObjectId}

theorem object? (bears : Bears a s v) : ∃ i, v.object? = some i := by
  rcases bears with ⟨scope, e, t, -, makes⟩
  rcases makes.ends with ⟨i, -, made, -⟩
  exact ⟨i, made⟩

/-- What is made on the way has not been made when the task begins. -/
theorem le (bears : Bears a s v) (made : v.object? = some i) : s.fresh ≤ i := by
  rcases bears with ⟨scope, e, t, reached, makes⟩
  have since : t.fresh ≤ i := by
    cases makes with
    | fn =>
      cases made
      exact Nat.le_refl _
    | array ends | hash ends =>
      cases made
      exact ends.grows.fresh
    | builtin callee given =>
      cases made
      exact Nat.le_trans callee.grows.fresh given.grows.fresh
  exact Nat.le_trans reached.begun.fresh since

/-- What is made on the way has been made when the task ends. -/
theorem lt (bears : Bears a s v) (made : v.object? = some i) {r : Except Fault a.Result}
    (ends : Ends a s r t) : i < t.fresh := by
  rcases bears with ⟨scope, e, u, reached, makes⟩
  rcases makes.ends with ⟨j, w, made', ends', next⟩
  rcases reached.ended ends with ⟨q, w', ends'', grows⟩
  cases made.symm.trans made'
  cases (ends'.unique ends'').2
  exact Nat.lt_of_lt_of_le (next ▸ Nat.lt_succ_self i) grows.fresh

/-- An object is made by the task itself or on the way of one of its parts. -/
theorem cases_part (bears : Bears a s v) :
    (∃ scope e, a = .expr scope e ∧ Makes scope e s v) ∨ ∃ b t, Part a s b t ∧ Bears b t v := by
  rcases bears with ⟨scope, e, t, reached, makes⟩
  cases reached with
  | refl => exact .inl ⟨scope, e, rfl, makes⟩
  | step part reached => exact .inr ⟨_, _, part, scope, e, t, reached, makes⟩

/-- What is made in a later part has another identity. -/
theorem lt_of_later (later : Later a s b t c u) (first : Bears b t v) (second : Bears c u w)
    {j : ObjectId} (made : v.object? = some i) (made' : w.object? = some j) : i < j := by
  rcases later.exists_ended with ⟨x, t', ends, grows⟩
  exact Nat.lt_of_lt_of_le (first.lt made ends) (Nat.le_trans grows.fresh (second.le made'))

/-- What the expression makes itself has another identity than what is made in its parts. -/
theorem lt_of_makes {scope : ScopeId} {e : Expr} (part : Part (.expr scope e) s b t)
    (first : Bears b t v) (makes : Makes scope e s w) {j : ObjectId} (made : v.object? = some i)
    (made' : w.object? = some j) : i < j := by
  rcases makes.parts part made' with ⟨q, u, ends, le⟩
  exact Nat.lt_of_lt_of_le (first.lt made ends) le

/-- No two objects made on the way of a task have the same identity. -/
theorem once (first : Bears a s v) (second : Bears a s w) (same : v.object? = w.object?) :
    v = w := by
  rcases first.object? with ⟨i, made⟩
  have made' := same.symm.trans made
  rcases first with ⟨scope, e, t, reached, makes⟩
  -- Either both are made in the same place, or there is a task in which they go apart.
  generalize goal : Task.expr scope e = c at reached
  induction reached with
  | refl a s =>
    subst goal
    rcases second.cases_part with ⟨_, _, same, makes'⟩ | ⟨b, u, part, below⟩
    · cases same
      exact makes.unique makes'
    · exact absurd (lt_of_makes part below makes made' made) (Nat.lt_irrefl i)
  | @step a b c s t u part reached ih =>
    subst goal
    have first : Bears b t v := ⟨scope, e, u, reached, makes⟩
    rcases second.cases_part with ⟨_, _, rfl, makes'⟩ | ⟨d, u', part', below⟩
    · exact absurd (lt_of_makes part first makes' made made') (Nat.lt_irrefl i)
    · rcases part.compare part' with ⟨rfl, rfl⟩ | later | later
      · exact ih below makes rfl
      · exact absurd (lt_of_later later first below made made') (Nat.lt_irrefl i)
      · exact absurd (lt_of_later later below first made' made) (Nat.lt_irrefl i)

end Bears

/-! ## Sessions -/

section

variable {programs before after : List Program} {p q : Program} {s t : State}

/-- The last program has run behind the others. -/
theorem Ran.of_concat (ran : Ran (before ++ [p]) t) :
    ∃ s r, Ran before s ∧ Ends (.body State.root p) s r t := by
  generalize same : before ++ [p] = programs at ran
  cases ran with
  | nil => exact absurd same (List.append_ne_nil_of_right_ne_nil before (List.cons_ne_nil p []))
  | snoc ran ends =>
    rcases List.append_inj' same rfl with ⟨rfl, last⟩
    cases last
    rcases Program.gives_iff.1 ⟨_, ends⟩ with ⟨r, whole, -⟩
    exact ⟨_, r, ran, whole⟩

/-- A session leaves one state. -/
theorem Ran.unique (first : Ran programs s) (second : Ran programs t) : s = t := by
  induction first generalizing t with
  | nil =>
    generalize none : ([] : List Program) = programs at second
    cases second with
    | nil => rfl
    | snoc => exact absurd none.symm (List.append_ne_nil_of_right_ne_nil _ (List.cons_ne_nil _ _))
  | snoc _ ends ih =>
    rcases Program.gives_iff.1 ⟨_, ends⟩ with ⟨r, whole, -⟩
    rcases second.of_concat with ⟨u, q, ran, whole'⟩
    cases ih ran
    exact (whole.unique whole').2

/-- Each program of a session has ended before the session has. -/
theorem Ran.ended (ran : Ran (before ++ p :: after) t) :
    ∃ s r u, Ran before s ∧ Ends (.body State.root p) s r u ∧ u.Grows t := by
  induction after using List.reverseRecOn generalizing t with
  | nil =>
    rcases ran.of_concat with ⟨s, r, ran, ends⟩
    exact ⟨s, r, t, ran, ends, .refl t⟩
  | append_singleton after q ih =>
    rw [← List.cons_append, ← List.append_assoc] at ran
    rcases ran.of_concat with ⟨v, r, ran, last⟩
    rcases ih ran with ⟨s, r', u, ran, ends, grows⟩
    exact ⟨s, r', u, ran, ends, grows.trans last.grows⟩

/-- Two runs of a session are the same, or one has ended before the other. -/
theorem Runs.compare (first : Runs programs p s) (second : Runs programs q t) :
    (p = q ∧ s = t) ∨ (∃ r u, Ends (.body State.root p) s r u ∧ u.Grows t) ∨
      ∃ r u, Ends (.body State.root q) t r u ∧ u.Grows s := by
  have earlier {before before' rest : List Program} {p : Program} {s t : State}
      (ran : Ran before s) (ran' : Ran before' t) (same : before' = before ++ p :: rest) :
      ∃ r u, Ends (.body State.root p) s r u ∧ u.Grows t := by
    subst same
    rcases ran'.ended with ⟨s', r, u, ran', ends, grows⟩
    cases ran.unique ran'
    exact ⟨r, u, ends, grows⟩
  rcases first with ⟨before, after, rfl, ran⟩
  rcases second with ⟨before', after', same, ran'⟩
  rcases List.append_eq_append_iff.1 same with ⟨between, front, back⟩ | ⟨between, front, back⟩
  · cases between with
    | nil =>
      rw [List.append_nil] at front
      cases front
      cases back
      exact .inl ⟨rfl, ran.unique ran'⟩
    | cons =>
      cases back
      exact .inr (.inl (earlier ran ran' front))
  · cases between with
    | nil =>
      rw [List.append_nil] at front
      cases front
      cases back
      exact .inl ⟨rfl, ran.unique ran'⟩
    | cons =>
      cases back
      exact .inr (.inr (earlier ran' ran front))

end

/-- The object is made in the session of the programs. -/
def Born (programs : List Program) (v : Value) : Prop :=
  ∃ program s, Runs programs program s ∧ Bears (.body State.root program) s v

/-- No two objects made in a session have the same identity. -/
theorem Born.once {programs : List Program} {v w : Value} (first : Born programs v)
    (second : Born programs w) (same : v.object? = w.object?) : v = w := by
  rcases first with ⟨p, s, runs, bears⟩
  rcases second with ⟨q, t, runs', bears'⟩
  rcases bears.object? with ⟨i, made⟩
  have made' := same.symm.trans made
  rcases runs.compare runs' with ⟨rfl, rfl⟩ | ⟨r, u, ends, grows⟩ | ⟨r, u, ends, grows⟩
  · exact bears.once bears' same
  · have below := Nat.lt_of_lt_of_le (bears.lt made ends) grows.fresh
    exact absurd (bears'.le made') (Nat.not_le_of_lt below)
  · have below := Nat.lt_of_lt_of_le (bears'.lt made' ends) grows.fresh
    exact absurd (bears.le made) (Nat.not_le_of_lt below)

end Script
