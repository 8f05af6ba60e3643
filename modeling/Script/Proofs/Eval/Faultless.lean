import Script.Proofs.Eval.Lockstep

/-!
# No fault stands in a value

A fault ends a program and becomes its value, but no task comes upon a value in which a fault stands:
operators, indexing and built-in functions give plain values or hand on what they got. So where no
binding holds a fault, none ever will: `Ends.faultless` and `Reaches.faultless`. That every part of
the evaluator keeps to such values has been shown for runs in lockstep; here a run is in lockstep with
itself.
-/

namespace Script

/-! ## Values without faults -/

/-- No fault stands in the value, however deep. -/
def Value.Faultless (v : Value) : Prop :=
  ∀ u ∈ v.leaves, u.isError = false

/-- Values in which no fault stands. -/
def Realm.faultless : Realm :=
  ⟨fun _ => True, fun _ => True, fun _ => False⟩

theorem Realm.value_faultless : Realm.faultless.value = Value.Faultless := by
  have leaf (u : Value) : Realm.faultless.leaf u ↔ u.isError = false := by
    cases u with
    | function => exact ⟨fun _ => rfl, fun _ => ⟨trivial, fun _ _ => trivial⟩⟩
    | error => exact ⟨False.elim, nofun⟩
    | _ => exact ⟨fun _ => rfl, fun _ => trivial⟩
  funext v
  exact propext (forall₂_congr fun u _ => leaf u)

theorem Value.Faultless.isError {v : Value} (whole : v.Faultless) : v.isError = false := by
  cases v with
  | error e => exact whole _ List.mem_cons_self
  | _ => rfl

theorem Value.Faultless.unwrap {v : Value} (whole : v.Faultless) : v.unwrap.Faultless := by
  cases v <;> exact whole

/-! ## A run in lockstep with itself -/

/-- What a run keeps to in lockstep with itself is an invariant. -/
theorem Eval.Lockstep.upholds {α β : Type} {inv : State → Prop} {f : α → β} {P : α → Prop}
    {x : Eval α} {y : Eval β} (lockstep : Lockstep (fun s s' => s' = s ∧ inv s) f P x y) {s : State}
    (start : inv s) : x.Upholds inv s P := by
  intro r t ends
  rcases lockstep s s ⟨rfl, start⟩ with ⟨cut, -⟩ | ⟨r', t', _, ends', -, ⟨-, left⟩, pass⟩
  · cases cut.symm.trans ends
  · cases ends'.symm.trans ends
    exact ⟨left, pass⟩

/-- The same state twice, in which no binding holds a fault. -/
theorem Realm.faultless_mirror :
    Realm.faultless.Mirror .identity fun s s' => s' = s ∧ s.Bound Realm.faultless.value where
  injective := Function.injective_id
  lookup := by
    rintro s _ ⟨rfl, bound⟩ x scope - -
    rw [funext Value.rename_identity]
    exact ⟨Option.map_id.symm ▸ rfl, fun v => bound.lookup⟩
  bind := by
    rintro s _ ⟨rfl, bound⟩ scope x v - - whole
    rw [Value.rename_identity]
    exact ⟨rfl, bound.bind scope x whole⟩
  newScope := by
    rintro s _ ⟨rfl, -⟩
    exact ⟨rfl, trivial⟩
  addScope := by
    rintro s _ ⟨rfl, bound⟩ bindings outer - new
    have same : bindings.mapValues (Value.rename .identity) = bindings := by
      simp [funext Value.rename_identity, Table.mapValues]
    rw [same]
    exact ⟨rfl, bound.addScope new⟩
  newObject := by
    rintro s _ ⟨rfl, -⟩
    rfl
  useFresh := by
    rintro s _ ⟨rfl, bound⟩
    exact ⟨rfl, bound.of_scopes rfl⟩
  printLine := by
    rintro s _ ⟨rfl, bound⟩ line
    exact ⟨rfl, bound.of_scopes rfl⟩

/-! ## Tasks -/

/-- All values at hand when the task begins satisfy `P`. -/
def Task.BeginsWith (P : Value → Prop) : Task → Prop
  | .pairs _ table _ => ∀ p ∈ table, P p.2
  | .statements _ last _ => ∀ v ∈ last, P v
  | _ => True

/-- All values that the task gives satisfy `P`. -/
def Task.EndsWith (P : Value → Prop) : (task : Task) → task.Result → Prop
  | .expr .., v => P v
  | .all .., vs => ∀ v ∈ vs, P v
  | .pairs .., table => ∀ p ∈ table, P p.2
  | .statement .., result | .statements .., result | .body .., result => ∀ v ∈ result, P v

section

variable {a b : Task} {s t : State}

theorem Task.eval_faultless (n : Nat) (start : a.BeginsWith Realm.faultless.value)
    (bound : s.Bound Realm.faultless.value) :
    (a.eval n).Upholds (State.Bound Realm.faultless.value) s (a.EndsWith Realm.faultless.value) := by
  have mirror := Realm.faultless_mirror
  have same := Expr.eval_inStep mirror n
  have inside (scope : ScopeId) : Realm.faultless.scope scope := trivial
  have names (xs : List String) : ∀ x ∈ xs, Realm.faultless.name x := fun _ _ => trivial
  cases a with
  | expr scope e => exact (same scope e (inside scope) (names _)).upholds bound
  | all scope es => exact (evalAll_lockstep same (inside scope) (names _)).upholds bound
  | pairs scope table ps =>
    exact (evalPairs_lockstep same (inside scope) start (names _)).upholds bound
  | statement scope one =>
    exact (Statement.step_lockstep mirror same (inside scope) (names _)).upholds bound
  | statements scope last block =>
    exact (Statement.stepAll_lockstep mirror same (inside scope) start (names _)).upholds bound
  | body scope block =>
    exact (Statement.runAll_lockstep mirror n (inside scope) (names _)).upholds bound

theorem Ends.faultless {r : Except Fault a.Result} (ends : Ends a s r t)
    (start : a.BeginsWith Value.Faultless) (bound : s.Bound Value.Faultless) :
    t.Bound Value.Faultless ∧ ∀ x, r = .ok x → a.EndsWith Value.Faultless x := by
  rw [← Realm.value_faultless] at *
  rcases ends with ⟨n, ends⟩
  exact Task.eval_faultless n start bound r t ends

/-- What the parts before it leave is free of faults when the next part begins. -/
theorem Part.faultless (part : Part a s b t) (start : a.BeginsWith Value.Faultless)
    (bound : s.Bound Value.Faultless) :
    b.BeginsWith Value.Faultless ∧ t.Bound Value.Faultless := by
  cases part with
  | operand | left | test | collection | callee | first | key | expr | elements | statement =>
    exact ⟨trivial, bound⟩
  | hash | body => exact ⟨nofun, bound⟩
  | right ends | position ends | arguments ends | others ends | value ends =>
    exact ⟨trivial, (ends.faultless trivial bound).1⟩
  | yes ends | no ends => exact ⟨nofun, (ends.faultless trivial bound).1⟩
  | call ends ends' =>
    rcases ends'.faultless trivial (ends.faultless trivial bound).1 with ⟨bound', args⟩
    exact ⟨trivial, bound'.frame (by simp [Value.Faultless, Value.leaves, Value.isError]) (args _ rfl)⟩
  | morePairs ends _ ends' =>
    rcases ends'.faultless trivial (ends.faultless trivial bound).1 with ⟨bound', value⟩
    refine ⟨fun p here => ?_, bound'⟩
    rcases Table.mem_insert here with rfl | before
    · exact value _ rfl
    · exact start p before
  | statements ends _ =>
    rcases ends.faultless trivial bound with ⟨bound', result⟩
    exact ⟨result _ rfl, bound'⟩

theorem Reaches.faultless (reached : Reaches a s b t) (start : a.BeginsWith Value.Faultless)
    (bound : s.Bound Value.Faultless) :
    b.BeginsWith Value.Faultless ∧ t.Bound Value.Faultless := by
  induction reached with
  | refl => exact ⟨start, bound⟩
  | step part _ ih =>
    rcases part.faultless start bound with ⟨start', bound'⟩
    exact ih start' bound'

/-- Whatever is called with arguments free of faults gives no value with one. -/
theorem Value.call_faultless {n : Nat} {callee v : Value} {args : List Value}
    (ends : callee.call n args s = some (.ok v, t)) (whole : callee.Faultless)
    (given : ∀ u ∈ args, u.Faultless) (bound : s.Bound Value.Faultless) : v.Faultless := by
  rw [← Realm.value_faultless] at *
  exact ((Value.call_lockstep Realm.faultless_mirror n whole given).upholds bound _ t ends).2 v rfl

end

end Script
