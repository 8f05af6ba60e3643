import Script.Eval.Expr
import Script.Proofs.Eval.After
import Script.Proofs.Eval.Bound

/-!
# Values without markers

A value is free if no return marker stands in it at any depth, and tidy if it is free once the markers
around it are taken off: what is on its way out of a function may be marked, what is held in an array
or a hash may not. A state is clean if all bindings of all scopes are free.

This module says what operators and bindings make of tidy values, and where a marked one among them
would show.
-/

namespace Script

/-! ## Free and tidy values -/

mutual

/-- No return marker stands in the value. -/
def Value.free : Value → Bool
  | .array _ vs => freeAll vs
  | .hash _ ps => freePairs ps
  | .returned _ => false
  | _ => true

def freeAll : List Value → Bool
  | [] => true
  | v :: vs => v.free && freeAll vs

def freePairs : List (Key × Value) → Bool
  | [] => true
  | (_, v) :: ps => v.free && freePairs ps

end

/-- No return marker stands in the value once the outer ones are taken off. -/
def Value.tidy : Value → Bool
  | .returned v => v.tidy
  | v => v.free

theorem freeAll_iff {vs : List Value} : freeAll vs = true ↔ ∀ v ∈ vs, v.free = true := by
  induction vs with
  | nil => simp [freeAll]
  | cons v vs ih => simp [freeAll, ih]

theorem freePairs_iff {ps : List (Key × Value)} :
    freePairs ps = true ↔ ∀ p ∈ ps, p.2.free = true := by
  induction ps with
  | nil => simp [freePairs]
  | cons p ps ih => simp [freePairs, ih]

theorem Value.isReturned_of_free {v : Value} (h : v.free = true) : v.isReturned = false := by
  cases v with
  | returned v => cases h
  | _ => rfl

theorem Value.tidy_of_free {v : Value} (h : v.free = true) : v.tidy = true := by
  cases v with
  | returned v => cases h
  | _ => exact h

theorem Value.free_of_tidy {v : Value} (tidy : v.tidy = true) (h : v.isReturned = false) :
    v.free = true := by
  cases v with
  | returned v => cases h
  | _ => exact tidy

/-- Taking off the outer marker leaves a free value, unless there are two. -/
theorem Value.free_unwrap {v : Value} (tidy : v.tidy = true)
    (single : ∀ w, v ≠ .returned (.returned w)) : v.unwrap.free = true := by
  cases v with
  | returned v =>
    refine Value.free_of_tidy tidy ?_
    cases v with
    | returned w => exact absurd rfl (single w)
    | _ => rfl
  | _ => exact tidy

/-! ## Faults -/

/-- Does the fault name the type? -/
def Fault.mentions (t : ValueType) : Fault → Bool
  | .unknownUnary _ operand => operand = t
  | .unknownBinary left _ right | .typeMismatch left _ right => left = t || right = t
  | .notCallable type | .notIndexable type | .unusableKey type => type = t
  | .unsupportedArgument _ type => type = t
  | .wrongArgument _ expected got => expected = t || got = t
  | .unbound _ | .divisionByZero | .argumentCount .. => false

/-- A type that a value is not marked with. -/
theorem Value.type_eq_returned_iff {v : Value} :
    v.type = .returned ↔ v.isReturned = true := by
  cases v <;> simp [Value.type, Value.isReturned]

theorem Fault.unusableKey_silent_iff {v : Value} :
    (Fault.unusableKey v.type).mentions .returned = false ↔ v.isReturned = false := by
  simp [mentions, Value.type_eq_returned_iff]

theorem Fault.notCallable_silent_iff {v : Value} :
    (Fault.notCallable v.type).mentions .returned = false ↔ v.isReturned = false := by
  simp [mentions, Value.type_eq_returned_iff]

/-- An outcome shows no marker: the value passes, or the fault does not name the marker's type. -/
def Unmarked {α : Type} (passes : α → Prop) : Except Fault α → Prop
  | .ok a => passes a
  | .error e => e.mentions .returned = false

/-! ## Operators -/

section

variable {passes : Value → Prop} (free : ∀ u, u.free = true → passes u)

include free

theorem UnaryOp.apply_unmarked_iff (op : UnaryOp) (v : Value) :
    Unmarked passes (op.apply v) ↔ (op = .negate → v.isReturned = false) := by
  cases op with
  | not => simp [apply, Unmarked, free (.bool _) rfl]
  | negate =>
    cases v <;>
      simp [apply, Unmarked, free (.int _) rfl, Value.isReturned, Value.type, Fault.mentions]

theorem BinaryOp.onInts_unmarked (op : BinaryOp) (m n : Int64) :
    Unmarked passes (op.onInts m n) := by
  cases op with
  | div =>
    by_cases zero : n = 0
    · simp [onInts, zero, Unmarked, Fault.mentions]
    · simp [onInts, zero, Unmarked, free (.int _) rfl]
  | _ => exact free _ rfl

omit free in
/-- The fault of an operator names the types of both operands. -/
theorem BinaryOp.mismatch_unmarked_iff (op : BinaryOp) (v w : Value) :
    Unmarked passes
      (if v.type = w.type then .error (.unknownBinary v.type op w.type)
        else .error (.typeMismatch v.type op w.type)) ↔
      v.isReturned = false ∧ w.isReturned = false := by
  split <;> simp [Unmarked, Fault.mentions, Value.type_eq_returned_iff]

/-- A marked operand shows in the fault, except when identity is asked for. -/
theorem BinaryOp.apply_unmarked_iff (op : BinaryOp) (v w : Value) :
    Unmarked passes (op.apply v w) ↔
      (op ≠ .equal → op ≠ .notEqual → v.isReturned = false ∧ w.isReturned = false) := by
  unfold apply
  split
  case h_1 => simp [onInts_unmarked free, Value.isReturned]
  case h_2 => simp [Unmarked, free (.str _) rfl, Value.isReturned]
  case h_3 => simp [Unmarked, Fault.mentions, Value.isReturned]
  case h_4 =>
    cases op with
    -- Identity can be asked of any two values; all other operators fail.
    | equal => simp [onOthers, Unmarked, free (.bool _) rfl]
    | notEqual => simp [onOthers, Unmarked, free (.bool _) rfl]
    | _ => simpa [onOthers] using mismatch_unmarked_iff _ v w

/-- A marked value shows where it is indexed, and a marked index where a hash is. -/
theorem Value.elementAt_unmarked_iff {v : Value} (tidy : v.tidy = true) (w : Value) :
    Unmarked passes (v.elementAt w) ↔
      v.isReturned = false ∧ (v.type = .hash → w.isReturned = false) := by
  unfold elementAt
  split
  case h_1 id vs i =>
    have elements := freeAll_iff.1 tidy
    have found : (((Integer.toIndex? i).bind fun i => vs[i]?).getD .null).free = true := by
      rcases there : (Integer.toIndex? i).bind fun i => vs[i]? with _ | u
      · rfl
      · rcases Option.bind_eq_some_iff.1 there with ⟨place, -, there⟩
        exact elements u (List.mem_of_getElem? there)
    simp [Unmarked, Value.isReturned, Value.type, free _ found]
  case h_2 id ps =>
    have unmarked : (Value.hash id ps).isReturned = false := rfl
    have indexed : (Value.hash id ps).type = .hash := rfl
    rcases keyed : w.key? with _ | k
    · simp [Unmarked, Fault.mentions, unmarked, indexed, Value.type_eq_returned_iff]
    -- A value that is a key is not marked.
    · have plain : w.isReturned = false := by
        rw [← Value.toValue_of_key? keyed]
        cases k <;> rfl
      have found : ((Table.get? k ps).getD .null).free = true := by
        rcases there : Table.get? k ps with _ | u
        · rfl
        · exact freePairs_iff.1 tidy (k, u) (Table.mem_of_get? there)
      simp [Unmarked, unmarked, plain, free _ found]
  case h_3 =>
    cases v with
    | hash => simp_all
    | _ => simp [Unmarked, Fault.mentions, Value.isReturned, Value.type]

end

/-! ## Clean states -/

/-- All bindings are free. -/
def State.Clean (s : State) : Prop :=
  ∀ (i : ScopeId) (here : Scope), s.scopes[i]? = some here →
    ∀ x v, here.bindings.get? x = some v → v.free = true

namespace State.Clean

variable {s : State}

theorem initial : State.initial.Clean :=
  State.Bound.initial

theorem of_scopes {s' : State} (clean : s.Clean) (same : s'.scopes = s.scopes) : s'.Clean :=
  State.Bound.of_scopes clean same

theorem bind (clean : s.Clean) (scope : ScopeId) (x : String) {v : Value} (free : v.free = true) :
    (s.bind scope x v).Clean :=
  State.Bound.bind clean scope x free

theorem addScope (clean : s.Clean) {scope : Scope}
    (free : ∀ x v, scope.bindings.get? x = some v → v.free = true) :
    (s.addScope scope).2.Clean :=
  State.Bound.addScope clean free

theorem lookup (clean : s.Clean) {x : String} {scope : ScopeId} {v : Value}
    (h : s.lookup x scope = some v) : v.free = true :=
  State.Bound.lookup clean h

end State.Clean

end Script
