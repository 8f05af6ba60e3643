import Script.State

/-!
# Evaluations

An evaluation takes a state to a value or a fault, together with the state it leaves: what was bound
and printed before a fault stays. It may also give nothing at all, which means that it was cut off
because it went too deep; that is no fault, and no program can tell.
-/

namespace Script

def Eval (α : Type) : Type :=
  State → Option (Except Fault α × State)

namespace Eval

variable {α β : Type}

/-! ## Sequencing -/

@[inline]
def pure (a : α) : Eval α :=
  fun s => some (.ok a, s)

@[inline]
def fail (e : Fault) : Eval α :=
  fun s => some (.error e, s)

/-- Goes on with the value, in the state that was left. A fault ends the evaluation there. -/
@[inline]
def bind (x : Eval α) (f : α → Eval β) : Eval β := fun s =>
  match x s with
  | none => none
  | some (.ok a, s') => f a s'
  | some (.error e, s') => some (.error e, s')

instance : Monad Eval where
  pure := pure
  bind := bind

/-- Goes on with what needs no state. -/
@[inline]
def ofExcept (x : Except Fault α) : Eval α :=
  fun s => some (x, s)

/-- Changes the state. -/
@[inline]
def change (f : State → α × State) : Eval α := fun s =>
  match f s with
  | (a, s') => some (.ok a, s')

/-- Looks at the state. -/
@[inline]
def look (f : State → α) : Eval α :=
  fun s => some (.ok (f s), s)

@[simp]
theorem pure_apply (a : α) (s : State) : (Pure.pure a : Eval α) s = some (.ok a, s) := rfl

theorem bind_apply (x : Eval α) (f : α → Eval β) (s : State) :
    (x >>= f) s =
      match x s with
      | none => none
      | some (.ok a, s') => f a s'
      | some (.error e, s') => some (.error e, s') := rfl

instance : LawfulMonad Eval :=
  LawfulMonad.mk' Eval
    (fun x => by
      funext s
      simp only [Functor.map, bind]
      cases x s with
      | none => rfl
      | some r => obtain ⟨r | r, t⟩ := r <;> rfl)
    (fun _ _ => rfl)
    (fun x f g => by
      funext s
      simp only [Bind.bind, bind]
      cases x s with
      | none => rfl
      | some r => obtain ⟨r | r, t⟩ := r <;> rfl)

/-! ## Steps on the state -/

/-- Binds a name in a scope. -/
def bindName (scope : ScopeId) (x : String) (v : Value) : Eval Unit :=
  change fun s => ((), s.bind scope x v)

/-- Makes a new array. -/
def newArray (elements : List Value) : Eval Value :=
  change fun s => (.array s.fresh elements, s.useFresh)

/-- Makes a new hash. -/
def newHash (pairs : Table Key Value) : Eval Value :=
  change fun s => (.hash s.fresh pairs, s.useFresh)

/-- Makes a new function. -/
def newFunction (closure : Closure) : Eval Value :=
  change fun s => (.function s.fresh closure, s.useFresh)

/-- Prints a line. -/
def printLine (line : String) : Eval Unit :=
  change fun s => ((), s.printLine line)

end Eval
end Script
