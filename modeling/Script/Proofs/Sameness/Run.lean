import Script.Proofs.Eval.Provenance
import Script.Proofs.Sameness.Values

/-!
# Identical values of one run

All values that come up in a session are built from plain values and from objects made in the session.
Each object is made once, so values of one session are identical only if they are one value:
`ComesUp.eq_of_identical`. Between two sessions this does not hold, since each of them counts its
objects from the start.
-/

namespace Script

/-! ## Values of a session -/

/-- The values at hand when the task begins. -/
def Task.atHand : Task → List Value
  | .pairs _ table _ => table.map Prod.snd
  | .statements _ last _ => last.toList
  | _ => []

/-- The values that the task gives. -/
def Task.given : (task : Task) → task.Result → List Value
  | .expr .., v => [v]
  | .all .., vs => vs
  | .pairs .., table => table.map Prod.snd
  | .statement .., result | .statements .., result | .body .., result => result.toList

/-- Somewhere in the state a name is bound to the value. -/
def State.Binds (s : State) (v : Value) : Prop :=
  ∃ (i : ScopeId) (here : Scope) (x : String),
    s.scopes[i]? = some here ∧ here.bindings.get? x = some v

/-- In the session of the programs the value comes up, or stands in one that does. -/
inductive ComesUp (programs : List Program) : Value → Prop
  | bound {task s v} : Meets programs task s → s.Binds v → ComesUp programs v
  | atHand {task s v} : Meets programs task s → v ∈ task.atHand → ComesUp programs v
  | given {task s x t v} : Meets programs task s → Ends task s (.ok x) t → v ∈ task.given x →
      ComesUp programs v
  | left {task s r t v} : Meets programs task s → Ends task s r t → t.Binds v → ComesUp programs v
  | result {program s v t} : Runs programs program s → program.Gives State.root s (some v) t →
      ComesUp programs v
  | part {v u} : ComesUp programs v → u ∈ v.parts → ComesUp programs u
  | marked {v} : ComesUp programs (.returned v) → ComesUp programs v

section

variable {P : Value → Prop}

theorem Task.BeginsWith.atHand {a : Task} (begins : a.BeginsWith P) {v : Value} (h : v ∈ a.atHand) :
    P v := by
  cases a with
  | pairs scope table ps =>
    rcases List.mem_map.1 h with ⟨p, here, rfl⟩
    exact begins p here
  | statements scope last block => exact begins v (Option.mem_toList.1 h)
  | _ => cases h

theorem Task.EndsWith.given {a : Task} {x : a.Result} (gives : a.EndsWith P x) {v : Value}
    (h : v ∈ a.given x) : P v := by
  cases a with
  | expr scope e => exact List.mem_singleton.1 h ▸ gives
  | all scope es => exact gives v h
  | pairs scope table ps =>
    rcases List.mem_map.1 h with ⟨p, here, rfl⟩
    exact gives p here
  | statement | statements | body => exact gives v (Option.mem_toList.1 h)

theorem State.Bound.binds {s : State} (bound : s.Bound P) {v : Value} (h : s.Binds v) : P v := by
  rcases h with ⟨i, here, x, there, at_⟩
  exact bound i here there x v at_

end

/-! ## Objects inside a value -/

/-- `u` is the value, or stands in it at whatever depth. -/
inductive Value.Inside (u : Value) : Value → Prop
  | self : Inside u u
  | part {v w} : w ∈ v.parts → Inside u w → Inside u v
  | marked {v} : Inside u v → Inside u (.returned v)

/-- All objects in the value have been made in the session. -/
def Native (programs : List Program) (v : Value) : Prop :=
  ∀ u, u.Inside v → u.object?.isSome → Born programs u

variable {programs : List Program} {program : Program} {s : State} {task : Task} {v w : Value}

/-- Values without parts and without marker have only themselves inside. -/
theorem Native.of_plain (plain : v.isPlain = true) : Native programs v := by
  intro u inside object
  cases inside with
  | self => cases v <;> simp_all [Value.isPlain, Value.object?]
  | part here => cases v <;> simp_all [Value.isPlain, Value.parts]
  | marked => cases plain

theorem Native.hereditary : Value.Hereditary (Native programs) where
  plain _ := .of_plain
  part v u native here w inside := native w (.part here inside)
  marked v := by
    refine ⟨fun native u inside => native u (.marked inside), fun native u inside object => ?_⟩
    cases inside with
    | self => cases object
    | part here => cases here
    | marked inside => exact native u inside object

/-- What the session makes is native if its parts are. -/
theorem Born.native (born : Born programs v) (parts : ∀ u ∈ v.parts, Native programs u) :
    Native programs v := by
  rcases born with ⟨program, s, runs, bears⟩
  intro u inside object
  cases inside with
  | self => exact ⟨program, s, runs, bears⟩
  | part here inside => exact parts _ here u inside object
  | marked =>
    rcases bears.object? with ⟨i, made⟩
    cases made

theorem Runs.supplies (runs : Runs programs program s) :
    Supplies (Native programs) (.body State.root program) s :=
  fun _ bears => Born.native ⟨program, s, runs, bears⟩

theorem Ran.native (ran : Ran programs s) : s.Bound (Native programs) := by
  induction ran with
  | nil => exact .initial
  | @snoc programs program s s' n result ran ends ih =>
    have runs : Runs (programs ++ [program]) program s := ⟨programs, [], rfl, ran⟩
    have earlier : s.Bound (Native (programs ++ [program])) := by
      refine ih.mono fun v native u inside object => ?_
      rcases native u inside object with ⟨q, t, runs, bears⟩
      exact ⟨q, t, runs.append [program], bears⟩
    rcases Program.gives_iff.1 ⟨n, ends⟩ with ⟨r, whole, -⟩
    exact (whole.inherits Native.hereditary trivial earlier runs.supplies).1

theorem Runs.native (runs : Runs programs program s) : s.Bound (Native programs) := by
  rcases runs with ⟨before, after, rfl, ran⟩
  refine ran.native.mono fun v native u inside object => ?_
  rcases native u inside object with ⟨q, t, runs, bears⟩
  exact ⟨q, t, runs.append (program :: after), bears⟩

theorem Meets.native (met : Meets programs task s) :
    task.BeginsWith (Native programs) ∧ s.Bound (Native programs) ∧
      Supplies (Native programs) task s := by
  rcases met with ⟨program, start, runs, reached⟩
  exact reached.inherits Native.hereditary trivial runs.native runs.supplies

/-- All values that come up are made of what the session has made. -/
theorem ComesUp.native (up : ComesUp programs v) : Native programs v := by
  have hereditary : Value.Hereditary (Native programs) := Native.hereditary
  induction up with
  | bound met binds => exact met.native.2.1.binds binds
  | atHand met here => exact met.native.1.atHand here
  | given met ends here =>
    rcases met.native with ⟨begins, bound, supplies⟩
    exact ((ends.inherits hereditary begins bound supplies).2 _ rfl).given here
  | left met ends binds =>
    rcases met.native with ⟨begins, bound, supplies⟩
    exact (ends.inherits hereditary begins bound supplies).1.binds binds
  | result runs gives =>
    rcases Program.gives_iff.1 gives with ⟨r, ends, result⟩
    cases r with
    | error e =>
      cases result
      intro u inside object
      cases inside with
      | self => cases object
      | part here => cases here
    | ok r =>
      rcases Option.map_eq_some_iff.1 result with ⟨w, rfl, rfl⟩
      have given := (ends.inherits hereditary trivial runs.native runs.supplies).2 _ rfl
      exact hereditary.unwrap (given w rfl)
  | part _ here ih => exact hereditary.part _ _ ih here
  | marked _ ih => exact (hereditary.marked _).1 ih

/-- Identical values are equal plain values or the same object. -/
theorem Value.eq_or_object?_eq (same : v.identical w = true) :
    v = w ∨ v.object?.isSome ∧ v.object? = w.object? := by
  cases v <;> cases w <;> simp_all [identical, object?]

/-- Within a session the identity of an object determines what it holds. -/
theorem ComesUp.eq_of_identical (first : ComesUp programs v) (second : ComesUp programs w)
    (same : v.identical w = true) : v = w := by
  rcases Value.eq_or_object?_eq same with equal | ⟨object, same⟩
  · exact equal
  · exact (first.native v .self object).once (second.native w .self (same ▸ object)) same

end Script
