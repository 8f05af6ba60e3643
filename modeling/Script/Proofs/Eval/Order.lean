import Script.Proofs.Eval.After
import Script.Proofs.Eval.Task

/-!
# The order of tasks

A task begins its parts one after another. `Later a s b t c u` says that the task `a`, begun in `s`,
begins the part `c` in `u` only after its part `b`, begun in `t`, has ended. `Within` is `Reaches`
without the bodies of functions that are called on the way, so it stays in one scope.

`Hands a s b t` singles out the parts whose marked value becomes the value of the whole: a `return`
that ends such a part also ends the task around it.
-/

namespace Script

/-! ## One part after another -/

inductive Later : Task → State → Task → State → Task → State → Prop
  | right {scope op a b s v t} : Ends (.expr scope a) s (.ok v) t →
      Later (.expr scope (.binary op a b)) s (.expr scope a) s (.expr scope b) t
  | yes {scope test yes no s v t} : Ends (.expr scope test) s (.ok v) t → v.isTruthy = true →
      Later (.expr scope (.cond test yes no)) s (.expr scope test) s (.statements scope none yes) t
  | no {scope test yes no s v t} : Ends (.expr scope test) s (.ok v) t → v.isTruthy = false →
      Later (.expr scope (.cond test yes (some no))) s (.expr scope test) s
        (.statements scope none no) t
  | position {scope a i s v t} : Ends (.expr scope a) s (.ok v) t →
      Later (.expr scope (.index a i)) s (.expr scope a) s (.expr scope i) t
  | arguments {scope f args s v t} : Ends (.expr scope f) s (.ok v) t → v.isCallable = true →
      Later (.expr scope (.call f args)) s (.expr scope f) s (.all scope args) t
  | callAfterCallee {scope f args s id closure t vs u} :
      Ends (.expr scope f) s (.ok (.function id closure)) t → Ends (.all scope args) t (.ok vs) u →
      Later (.expr scope (.call f args)) s (.expr scope f) s
        (.body u.scopes.size closure.body) (u.addScope (closure.frame vs)).2
  | callAfterArguments {scope f args s id closure t vs u} :
      Ends (.expr scope f) s (.ok (.function id closure)) t → Ends (.all scope args) t (.ok vs) u →
      Later (.expr scope (.call f args)) s (.all scope args) t
        (.body u.scopes.size closure.body) (u.addScope (closure.frame vs)).2
  | others {scope e es s v t} : Ends (.expr scope e) s (.ok v) t →
      Later (.all scope (e :: es)) s (.expr scope e) s (.all scope es) t
  | value {scope table key value ps s v t k} : Ends (.expr scope key) s (.ok v) t →
      v.key? = some k → Later (.pairs scope table ((key, value) :: ps)) s (.expr scope key) s
        (.expr scope value) t
  | pairsAfterKey {scope table key value ps s v t k w u} : Ends (.expr scope key) s (.ok v) t →
      v.key? = some k → Ends (.expr scope value) t (.ok w) u →
      Later (.pairs scope table ((key, value) :: ps)) s (.expr scope key) s
        (.pairs scope (table.insert k w) ps) u
  | pairsAfterValue {scope table key value ps s v t k w u} : Ends (.expr scope key) s (.ok v) t →
      v.key? = some k → Ends (.expr scope value) t (.ok w) u →
      Later (.pairs scope table ((key, value) :: ps)) s (.expr scope value) t
        (.pairs scope (table.insert k w) ps) u
  | statements {scope last one rest s result t} :
      Ends (.statement scope one) s (.ok result) t → result.any Value.isReturned = false →
      Later (.statements scope last (one :: rest)) s (.statement scope one) s
        (.statements scope result rest) t

namespace Later

variable {a b c : Task} {s t u : State}

/-- Both are parts of the task. -/
theorem parts (later : Later a s b t c u) : Part a s b t ∧ Part a s c u := by
  cases later with
  | right ends => exact ⟨.left, .right ends⟩
  | yes ends truthy => exact ⟨.test, .yes ends truthy⟩
  | no ends falsy => exact ⟨.test, .no ends falsy⟩
  | position ends => exact ⟨.collection, .position ends⟩
  | arguments ends callable => exact ⟨.callee, .arguments ends callable⟩
  | callAfterCallee ends ends' => exact ⟨.callee, .call ends ends'⟩
  | callAfterArguments ends ends' => exact ⟨.arguments ends rfl, .call ends ends'⟩
  | others ends => exact ⟨.first, .others ends⟩
  | value ends usable => exact ⟨.key, .value ends usable⟩
  | pairsAfterKey ends usable ends' => exact ⟨.key, .morePairs ends usable ends'⟩
  | pairsAfterValue ends usable ends' => exact ⟨.value ends usable, .morePairs ends usable ends'⟩
  | statements ends unmarked => exact ⟨.statement, .statements ends unmarked⟩

/-- A later part begins only behind a value. -/
theorem exists_ends (later : Later a s b t c u) : ∃ x t', Ends b t (.ok x) t' := by
  cases later with
  | right ends | yes ends | no ends | position ends | arguments ends | callAfterCallee ends
  | others ends | value ends | pairsAfterKey ends | statements ends => exact ⟨_, _, ends⟩
  | callAfterArguments _ ends | pairsAfterValue _ _ ends => exact ⟨_, _, ends⟩

end Later

/-! ## Tasks of one body -/

def Task.isBody : Task → Bool
  | .body .. => true
  | _ => false

/-- Carrying out one task comes to another without beginning the body of a function. -/
inductive Within : Task → State → Task → State → Prop
  | refl (task : Task) (s : State) : Within task s task s
  | step {a b c : Task} {s t u : State} : Part a s b t → b.isBody = false → Within b t c u →
      Within a s c u

section

variable {a b c : Task} {s t u : State} {scope : ScopeId}

theorem Within.reaches (within : Within a s b t) : Reaches a s b t := by
  induction within with
  | refl => exact .refl _ _
  | step part _ _ ih => exact .step part ih

theorem Within.trans (first : Within a s b t) (second : Within b t c u) : Within a s c u := by
  induction first with
  | refl => exact second
  | step part other _ ih => exact .step part other (ih second)

/-- Behind the items that have been evaluated come the others. -/
theorem Ends.within_all {before : List Expr} {vs : List Value}
    (ends : Ends (.all scope before) s (.ok vs) t) (es : List Expr) :
    Within (.all scope (before ++ es)) s (.all scope es) t := by
  induction before generalizing s vs with
  | nil =>
    rcases ends with ⟨n, ends⟩
    cases ends
    exact .refl _ _
  | cons e before ih =>
    rcases ends with ⟨n, ends⟩
    rcases Eval.exists_of_bind_ok ends with ⟨v, t', first, ends⟩
    rcases Eval.exists_of_bind_ok ends with ⟨ws, t'', others, last⟩
    cases last
    exact .step (.others ⟨n, first⟩) rfl (ih ⟨n, others⟩)

theorem Ends.within_pairs {table table' : Table Key Value} {before : List (Expr × Expr)}
    (ends : Ends (.pairs scope table before) s (.ok table') t) (ps : List (Expr × Expr)) :
    Within (.pairs scope table (before ++ ps)) s (.pairs scope table' ps) t := by
  induction before generalizing s table with
  | nil =>
    rcases ends with ⟨n, ends⟩
    cases ends
    exact .refl _ _
  | cons pair before ih =>
    rcases ends with ⟨n, ends⟩
    rcases Eval.exists_of_bind_ok ends with ⟨v, t', first, ends⟩
    -- A key that is none would have failed.
    rcases usable : v.key? with _ | k
    · rw [usable] at ends
      cases ends
    · rw [usable] at ends
      rcases Eval.exists_of_bind_ok ends with ⟨w, t'', second, others⟩
      exact .step (.morePairs ⟨n, first⟩ usable ⟨n, second⟩) rfl (ih ⟨n, others⟩)

/-- Behind statements that have ended without a marked value come the others. -/
theorem Ends.within_statements {last result : Option Value} {before : Block}
    (ends : Ends (.statements scope last before) s (.ok result) t)
    (unmarked : result.any Value.isReturned = false) (rest : Block) :
    ∃ last', Within (.statements scope last (before ++ rest)) s (.statements scope last' rest) t := by
  induction before generalizing s last with
  | nil =>
    rcases ends with ⟨n, ends⟩
    cases ends
    exact ⟨_, .refl _ _⟩
  | cons one before ih =>
    rcases ends with ⟨n, ends⟩
    rcases Eval.exists_of_bind_ok ends with ⟨result', t', first, ends⟩
    split at ends
    -- A marked result would be that of all of them.
    · rename_i marked
      cases ends
      simp [unmarked] at marked
    · rename_i goes
      rcases ih ⟨n, ends⟩ with ⟨last', within⟩
      exact ⟨last', .step (.statements ⟨n, first⟩ (Bool.eq_false_iff.2 goes)) rfl within⟩

end

/-- A task comes to `c` after it has come to `b` and this has ended. -/
def Follows (a : Task) (s : State) (b : Task) (t : State) (c : Task) (u : State) : Prop :=
  ∃ d w b' t', Within a s d w ∧ Later d w b' t' c u ∧ Within b' t' b t

/-! ## Values on their way out -/

/-- What the task gives is `v` on its way out of a function. -/
def Task.Leaves : (task : Task) → task.Result → Value → Prop
  | .expr .., x, v => x = .returned v
  | .statement .., x, v | .statements .., x, v | .body .., x, v => x = some (.returned v)
  | .all .., _, _ | .pairs .., _, _ => False

/-- A marked value of the part becomes the value of the task. -/
inductive Hands : Task → State → Task → State → Prop
  | yes {scope test yes no s v t} : Ends (.expr scope test) s (.ok v) t → v.isTruthy = true →
      Hands (.expr scope (.cond test yes no)) s (.statements scope none yes) t
  | no {scope test yes no s v t} : Ends (.expr scope test) s (.ok v) t → v.isTruthy = false →
      Hands (.expr scope (.cond test yes (some no))) s (.statements scope none no) t
  | bind {scope x e s} : Hands (.statement scope (.bind x e)) s (.expr scope e) s
  | expr {scope e s} : Hands (.statement scope (.expr e)) s (.expr scope e) s
  | statement {scope last one rest s} :
      Hands (.statements scope last (one :: rest)) s (.statement scope one) s
  | statements {scope last one rest s result t} :
      Ends (.statement scope one) s (.ok result) t → result.any Value.isReturned = false →
      Hands (.statements scope last (one :: rest)) s (.statements scope result rest) t
  | body {scope block s} : Hands (.body scope block) s (.statements scope none block) s

theorem Hands.leaves {a b : Task} {s t u : State} {v : Value} (hands : Hands a s b t)
    (h : ∃ x, Ends b t (.ok x) u ∧ b.Leaves x v) : ∃ x, Ends a s (.ok x) u ∧ a.Leaves x v := by
  rcases h with ⟨x, ends, leaves⟩
  cases hands with
  | yes tested truthy =>
    cases leaves
    rcases tested.together ends with ⟨n, tested, ends⟩
    refine ⟨.returned v, ⟨n + 1, ?_⟩, rfl⟩
    exact (Eval.bind_of_ok tested).trans (by rw [if_pos truthy]; exact Eval.bind_of_ok ends)
  | no tested falsy =>
    cases leaves
    rcases tested.together ends with ⟨n, tested, ends⟩
    have other : ¬ _ = true := Bool.eq_false_iff.1 falsy
    refine ⟨.returned v, ⟨n + 1, ?_⟩, rfl⟩
    exact (Eval.bind_of_ok tested).trans (by rw [if_neg other]; exact Eval.bind_of_ok ends)
  | bind =>
    cases leaves
    rcases ends with ⟨n, ends⟩
    exact ⟨some (.returned v), ⟨n, Eval.bind_of_ok ends⟩, rfl⟩
  | expr =>
    cases leaves
    rcases ends with ⟨n, ends⟩
    exact ⟨some (.returned v), ⟨n, Eval.bind_of_ok ends⟩, rfl⟩
  -- The statements behind a marked one are not run.
  | statement =>
    cases leaves
    rcases ends with ⟨n, ends⟩
    exact ⟨some (.returned v), ⟨n, Eval.bind_of_ok ends⟩, rfl⟩
  | statements first unmarked =>
    cases leaves
    rcases first.together ends with ⟨n, first, ends⟩
    have more : ¬ _ = true := Bool.eq_false_iff.1 unmarked
    refine ⟨some (.returned v), ⟨n, ?_⟩, rfl⟩
    exact (Eval.bind_of_ok first).trans (by rw [if_neg more]; exact ends)
  | body =>
    cases leaves
    exact ⟨some (.returned v), ends, rfl⟩

end Script
