import Script.Eval.Basic

/-!
# What holds when an evaluation ends

`x.After s post`: if the evaluation `x` ends from the state `s`, with a value or a fault, then `post`
holds of its outcome and of the state it leaves. `x.Keeps R` says the same of two states alone: the
state that is left is always related by `R` to the one at the start.

`x.Upholds inv s passes` is the case of an invariant of states and a property of values.

Each way of building evaluations has a rule for each of the three.
-/

namespace Script
namespace Eval

variable {α β : Type}

/-! ## Outcomes -/

theorem bind_of_ok {x : Eval α} {f : α → Eval β} {a : α} {s s' : State}
    (ends : x s = some (.ok a, s')) : (x >>= f) s = f a s' := by
  rw [bind_apply, ends]

theorem bind_of_error {x : Eval α} {f : α → Eval β} {e : Fault} {s s' : State}
    (ends : x s = some (.error e, s')) : (x >>= f) s = some (.error e, s') := by
  rw [bind_apply, ends]

/-- What gives a value has had one to go on with. -/
theorem exists_of_bind_ok {x : Eval α} {f : α → Eval β} {b : β} {s s' : State}
    (ends : (x >>= f) s = some (.ok b, s')) :
    ∃ a t, x s = some (.ok a, t) ∧ f a t = some (.ok b, s') := by
  rw [bind_apply] at ends
  rcases first : x s with _ | ⟨_ | a, t⟩
  · rw [first] at ends
    cases ends
  · rw [first] at ends
    cases ends
  · rw [first] at ends
    exact ⟨a, t, rfl, ends⟩

def After (x : Eval α) (s : State) (post : Except Fault α → State → Prop) : Prop :=
  ∀ r s', x s = some (r, s') → post r s'

section

variable {s : State} {post : Except Fault α → State → Prop}

theorem After.mono {post' : Except Fault α → State → Prop} {x : Eval α} (h : x.After s post)
    (weaker : ∀ r s', post r s' → post' r s') : x.After s post' := by
  intro r s' ends
  exact weaker r s' (h r s' ends)

theorem After.pure {a : α} (h : post (.ok a) s) : (Pure.pure a : Eval α).After s post := by
  intro r s' ends
  cases ends
  exact h

theorem After.fail {e : Fault} (h : post (.error e) s) : (Eval.fail e : Eval α).After s post := by
  intro r s' ends
  cases ends
  exact h

theorem After.ofExcept {x : Except Fault α} (h : post x s) : (Eval.ofExcept x).After s post := by
  intro r s' ends
  cases ends
  exact h

theorem After.look {f : State → α} (h : post (.ok (f s)) s) : (Eval.look f).After s post := by
  intro r s' ends
  cases ends
  exact h

theorem After.change {f : State → α × State} (h : post (.ok (f s).1) (f s).2) :
    (Eval.change f).After s post := by
  intro r s' ends
  cases ends
  exact h

/-- What goes on starts where the first part ended; a fault stays as it is. -/
theorem After.seq {x : Eval α} {f : α → Eval β} {post : Except Fault β → State → Prop}
    (next : ∀ a s', x s = some (.ok a, s') → (f a).After s' post)
    (fault : ∀ e s', x s = some (.error e, s') → post (.error e) s') : (x >>= f).After s post := by
  intro r s' ends
  rw [bind_apply] at ends
  -- The first part may be cut off, end with a fault, or end with a value.
  rcases first : x s with _ | ⟨_ | a, t⟩
  · rw [first] at ends
    cases ends
  · rw [first] at ends
    cases ends
    exact fault _ _ first
  · rw [first] at ends
    exact next a t first r s' ends

theorem After.bind {x : Eval α} {f : α → Eval β} {post : Except Fault β → State → Prop}
    (h : x.After s fun r s' =>
      match r with
      | .ok a => (f a).After s' post
      | .error e => post (.error e) s') :
    (x >>= f).After s post :=
  After.seq (fun a s' first => h (.ok a) s' first) fun e s' first => h (.error e) s' first

/-- What goes on behind something that needs no state starts where that did. -/
theorem After.check {x : Except Fault α} {f : α → Eval β} {post : Except Fault β → State → Prop}
    (next : ∀ a, x = .ok a → (f a).After s post) (fault : ∀ e, post (.error e) s) :
    (Eval.ofExcept x >>= f).After s post := by
  refine After.seq (fun a s' ends => ?_) fun e s' ends => ?_
  · cases ends
    exact next a rfl
  · cases ends
    exact fault e

end

end Eval

/-! ## Invariants of states -/

namespace Eval

variable {α β : Type} {inv : State → Prop} {passes : α → Prop} {s : State}

/-- If the evaluation ends, then in a state with the invariant, and its value passes unless it ends
with a fault. -/
def Upholds (inv : State → Prop) (x : Eval α) (s : State) (passes : α → Prop) : Prop :=
  x.After s fun r t => inv t ∧ ∀ a, r = .ok a → passes a

namespace Upholds

theorem pure {a : α} (start : inv s) (pass : passes a) :
    (Pure.pure a : Eval α).Upholds inv s passes :=
  After.pure ⟨start, fun _ same => Except.ok.inj same ▸ pass⟩

theorem fail {e : Fault} (start : inv s) : (Eval.fail e : Eval α).Upholds inv s passes :=
  After.fail ⟨start, nofun⟩

theorem ofExcept {x : Except Fault α} (start : inv s) (pass : ∀ a, x = .ok a → passes a) :
    (Eval.ofExcept x).Upholds inv s passes :=
  After.ofExcept ⟨start, pass⟩

theorem change {f : State → α × State} (left : inv (f s).2) (pass : passes (f s).1) :
    (Eval.change f).Upholds inv s passes :=
  After.change ⟨left, fun _ same => Except.ok.inj same ▸ pass⟩

theorem look {f : State → α} (start : inv s) (pass : passes (f s)) :
    (Eval.look f).Upholds inv s passes :=
  After.look ⟨start, fun _ same => Except.ok.inj same ▸ pass⟩

theorem mono {passes' : α → Prop} {x : Eval α} (h : x.Upholds inv s passes)
    (weaker : ∀ a, passes a → passes' a) : x.Upholds inv s passes' := by
  intro r t ends
  rcases h r t ends with ⟨left, pass⟩
  exact ⟨left, fun a same => weaker a (pass a same)⟩

/-- What goes on starts with the invariant and with a value that passes. -/
theorem seq {x : Eval α} {f : α → Eval β} {passes' : β → Prop} (first : x.Upholds inv s passes)
    (next : ∀ a t, inv t → passes a → (f a).Upholds inv t passes') :
    (x >>= f).Upholds inv s passes' := by
  refine After.seq (fun a t ends => ?_) fun e t ends => ⟨(first (.error e) t ends).1, nofun⟩
  rcases first (.ok a) t ends with ⟨left, pass⟩
  exact next a t left (pass a rfl)

end Upholds
end Eval

/-! ## Relations between states -/

/-- A relation that holds along a run as soon as it holds along each of its steps. -/
structure State.Chains (R : State → State → Prop) : Prop where
  refl : ∀ s, R s s
  trans : ∀ {s t u}, R s t → R t u → R s u

namespace Eval

/-- However `x` ends, the state it leaves is related to the one it started in. -/
def Keeps {α : Type} (R : State → State → Prop) (x : Eval α) : Prop :=
  ∀ s, x.After s fun _ s' => R s s'

namespace Keeps

variable {α β : Type} {R : State → State → Prop}

theorem mono {R' : State → State → Prop} {x : Eval α} (h : x.Keeps R)
    (weaker : ∀ s s', R s s' → R' s s') : x.Keeps R' :=
  fun s => (h s).mono fun _ s' => weaker s s'

theorem change {f : State → α × State} (h : ∀ s, R s (f s).2) : (Eval.change f).Keeps R :=
  fun s => After.change (h s)

theorem pure (chains : State.Chains R) (a : α) : (Pure.pure a : Eval α).Keeps R :=
  fun s => After.pure (chains.refl s)

theorem fail (chains : State.Chains R) (e : Fault) : (Eval.fail e : Eval α).Keeps R :=
  fun s => After.fail (chains.refl s)

theorem ofExcept (chains : State.Chains R) (x : Except Fault α) : (Eval.ofExcept x).Keeps R :=
  fun s => After.ofExcept (chains.refl s)

theorem look (chains : State.Chains R) (f : State → α) : (Eval.look f).Keeps R :=
  fun s => After.look (chains.refl s)

theorem bind (chains : State.Chains R) {x : Eval α} {f : α → Eval β} (first : x.Keeps R)
    (next : ∀ a, (f a).Keeps R) : (x >>= f).Keeps R := by
  intro s
  refine After.bind ((first s).mono ?_)
  intro r s' related
  cases r with
  | error e => exact related
  | ok a => exact (next a s').mono fun _ _ related' => chains.trans related related'

end Keeps
end Eval
end Script
