import Script.Eval.Expr

/-!
# What all bound values have in common

`s.Bound P`: every value that any scope of the state `s` binds a name to satisfies `P`. This holds of
a new state if it holds of what was bound last, whatever `P` is.
-/

namespace Script

/-- All values bound in the scopes satisfy `P`. -/
def State.Bound (P : Value → Prop) (s : State) : Prop :=
  ∀ (i : ScopeId) (here : Scope), s.scopes[i]? = some here →
    ∀ x v, here.bindings.get? x = some v → P v

namespace State.Bound

variable {P : Value → Prop} {s : State}

theorem initial : State.initial.Bound P := by
  intro i here there x v bound
  cases i with
  | zero =>
    cases there
    cases bound
  | succ i => cases there

theorem of_scopes {s' : State} (bound : s.Bound P) (same : s'.scopes = s.scopes) : s'.Bound P := by
  unfold State.Bound
  rw [same]
  exact bound

theorem mono {Q : Value → Prop} (bound : s.Bound P) (weaker : ∀ v, P v → Q v) : s.Bound Q :=
  fun i here there x v at_x => weaker v (bound i here there x v at_x)

theorem bind (bound : s.Bound P) (scope : ScopeId) (x : String) {v : Value} (new : P v) :
    (s.bind scope x v).Bound P := by
  intro i here there y w at_y
  simp only [State.bind, Array.getElem?_modify] at there
  split at there
  -- In the scope that is written to, a binding is the new one or was there before.
  · rcases Option.map_eq_some_iff.1 there with ⟨before, was, rfl⟩
    rw [Table.get?_insert] at at_y
    split at at_y
    · exact Option.some.inj at_y ▸ new
    · exact bound _ before was y w at_y
  · exact bound i here there y w at_y

theorem addScope (bound : s.Bound P) {scope : Scope}
    (new : ∀ x v, scope.bindings.get? x = some v → P v) : (s.addScope scope).2.Bound P := by
  intro i here there x v at_x
  simp only [State.addScope, Array.getElem?_push] at there
  split at there
  · cases there
    exact new x v at_x
  · exact bound i here there x v at_x

/-- What a name stands for is bound in some scope. -/
theorem lookup (bound : s.Bound P) {x : String} {scope : ScopeId} {v : Value}
    (h : s.lookup x scope = some v) : P v := by
  induction scope using Nat.strongRecOn with
  | ind scope ih =>
    rw [State.lookup] at h
    split at h
    · cases h
    · rename_i here there
      split at h
      · rename_i w at_x
        exact Option.some.inj h ▸ bound scope here there x w at_x
      · split at h
        · cases h
        · rename_i outer link
          split at h
          · exact ih _ ‹_› h
          · cases h

end State.Bound

/-! ## The scope of a call -/

/-- What the parameters are bound to: arguments, or `null`, or what was bound before. -/
theorem bindParams_all {P : Value → Prop} (null : P .null) {xs : List String} {vs : List Value}
    {bindings : Table String Value} (before : ∀ x v, bindings.get? x = some v → P v)
    (args : ∀ v ∈ vs, P v) : ∀ x v, (bindParams bindings xs vs).get? x = some v → P v := by
  induction xs generalizing bindings vs with
  | nil => exact before
  | cons x xs ih =>
    refine ih (fun y v bound => ?_) fun v here => args v (List.mem_of_mem_tail here)
    rw [Table.get?_insert] at bound
    split at bound
    · cases bound
      cases vs with
      | nil => exact null
      | cons v vs => exact args v List.mem_cons_self
    · exact before y v bound

theorem State.Bound.frame {P : Value → Prop} {s : State} {closure : Closure} {vs : List Value}
    (bound : s.Bound P) (null : P .null) (args : ∀ v ∈ vs, P v) :
    (s.addScope (closure.frame vs)).2.Bound P :=
  bound.addScope (bindParams_all null nofun args)

end Script
