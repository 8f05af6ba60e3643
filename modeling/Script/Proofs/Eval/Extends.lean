import Script.Proofs.Eval.Closed
import Script.Proofs.Eval.Frame
import Script.Proofs.Eval.Rules

/-!
# States that extend one another

A state extends another if it has the same scopes as that one, and perhaps more, and has made all its
objects. This is what calls do to the state, so a name that could be seen before is seen with the same
value as before.
-/

namespace Script

/-! ## Growth -/

/-- Nothing is ever taken away. -/
theorem State.Grows.effects : Effects (fun _ => State.Grows) State.Grows where
  chains := fun _ => ⟨.refl, fun first second => first.trans second⟩
  own := fun _ _ _ grows => grows
  bind := fun scope x v s => .bind s scope x v
  enter := fun {s _ here} grows => (State.Grows.addScope s here).trans grows
  objects := fun same le => ⟨same ▸ Nat.le_refl _, le⟩

/-! ## Extensions -/

/-- All scopes are there and the same, and all objects have been made. -/
structure State.Extends (s t : State) : Prop where
  untouched : Untouched s t
  grows : s.Grows t

namespace State.Extends

variable {s t u : State}

theorem refl (s : State) : s.Extends s :=
  ⟨Untouched.chains.refl s, .refl s⟩

theorem trans (first : s.Extends t) (second : t.Extends u) : s.Extends u :=
  ⟨Untouched.chains.trans first.untouched second.untouched, first.grows.trans second.grows⟩

theorem useFresh (s : State) : s.Extends s.useFresh :=
  ⟨.of_scopes rfl, .useFresh s⟩

theorem addScope (s : State) (here : Scope) : s.Extends (s.addScope here).2 :=
  ⟨((Frame.chains _).refl _).untouched, .addScope s here⟩

/-- A call extends the state. -/
theorem call {callee : Value} {args : List Value} {r : Except Fault Value}
    (ends : callee.CallEnds args s r t) : s.Extends t := by
  rcases ends with ⟨n, ends⟩
  exact ⟨Value.call_keeps Frame.effects n callee args s r t ends,
    Value.call_keeps State.Grows.effects n callee args s r t ends⟩

end State.Extends

/-! ## Names -/

variable {s t : State} {i j : ScopeId} {x : String} {v : Value} {here : Scope}

theorem State.lookup_of_bound (there : s.scopes[i]? = some here)
    (bound : here.bindings.get? x = some v) : s.lookup x i = some v := by
  rw [State.lookup, there]
  simp only [bound]

/-- A name that is not bound in a scope is looked up in the one around it. -/
theorem State.lookup_of_outer (there : s.scopes[i]? = some here)
    (unbound : here.bindings.get? x = none) (link : here.outer = some j) (before : j < i) :
    s.lookup x i = s.lookup x j := by
  rw [State.lookup, there]
  simp only [unbound, link, if_pos before]

theorem State.getElem?_bind (there : s.scopes[i]? = some here) (x : String) (v : Value) :
    (s.bind i x v).scopes[i]? = some { here with bindings := here.bindings.insert x v } := by
  simp [State.bind, Array.getElem?_modify, there]

theorem State.lookup_bind_self (there : i < s.scopes.size) (x : String) (v : Value) :
    (s.bind i x v).lookup x i = some v := by
  have here := State.getElem?_bind (Array.getElem?_eq_getElem there) x v
  exact lookup_of_bound here (Table.get?_insert_self x v _)

/-- From nowhere nothing is seen. -/
theorem State.lt_of_lookup (found : s.lookup x i = some v) : i < s.scopes.size := by
  refine Nat.lt_of_not_le fun outside => ?_
  rw [State.lookup, Array.getElem?_eq_none outside] at found
  cases found

/-- From a scope that was there a name is seen with the same value. -/
theorem Untouched.lookup (untouched : Untouched s t) (x : String) (there : i < s.scopes.size) :
    t.lookup x i = s.lookup x i := by
  induction i using Nat.strongRecOn with
  | ind i ih =>
    have same := Array.getElem?_eq_getElem there
    have same' := untouched i _ same
    cases bound : s.scopes[i].bindings.get? x with
    | some v => rw [State.lookup_of_bound same bound, State.lookup_of_bound same' bound]
    | none =>
      rw [State.lookup, State.lookup, same, same']
      simp only [bound]
      split
      · rfl
      · rename_i outer link
        split
        · rename_i before
          exact ih outer before (Nat.lt_trans before there)
        · rfl

/-- A name that a new scope binds is found there. -/
theorem State.lookup_addScope_self (bound : here.bindings.get? x = some v) :
    (s.addScope here).2.lookup x s.scopes.size = some v :=
  lookup_of_bound (s := (s.addScope here).2) Array.getElem?_push_size bound

/-- A name that a new scope does not bind is looked up from there as before. -/
theorem State.lookup_addScope (unbound : here.bindings.get? x = none) (link : here.outer = some j)
    (before : j < s.scopes.size) : (s.addScope here).2.lookup x s.scopes.size = s.lookup x j := by
  have there : (s.addScope here).2.scopes[s.scopes.size]? = some here := Array.getElem?_push_size
  rw [lookup_of_outer there unbound link before]
  exact (State.Extends.addScope s here).untouched.lookup x before

/-- A name is looked up, and then taken for that of a built-in function. -/
theorem evalName_eq (i : ScopeId) (x : String) (s : State) :
    evalName i x s =
      match s.lookup x i, Builtin.ofName? x with
      | some v, _ => some (.ok v, s)
      | none, some b => some (.ok (.builtin b), s)
      | none, none => some (.error (.unbound x), s) := by
  unfold evalName
  rw [Eval.bind_apply]
  simp only [Eval.look]
  cases s.lookup x i with
  | some v => rfl
  | none => cases Builtin.ofName? x <;> rfl

theorem evalName_of_lookup (found : s.lookup x i = some v) : evalName i x s = some (.ok v, s) := by
  rw [evalName_eq, found]

/-- What a name stands for depends only on what is found under it. -/
theorem evalName_congr (same : t.lookup x j = s.lookup x i)
    (names : evalName i x s = some (.ok v, s)) : evalName j x t = some (.ok v, t) := by
  rw [evalName_eq] at names ⊢
  rw [same]
  cases found : s.lookup x i with
  | some w =>
    rw [found] at names
    cases names
    rfl
  | none =>
    rw [found] at names
    cases named : Builtin.ofName? x with
    | some b =>
      rw [named] at names
      cases names
      rfl
    | none =>
      rw [named] at names
      cases names

end Script
