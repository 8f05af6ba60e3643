import Script.Proofs.Eval.Names
import Script.Proofs.Eval.Origin

/-!
# Realms

Evaluation in some scopes of a state looks up and binds the names that occur in the code and in the
functions it meets, and comes upon the values that are bound in those scopes. A realm sets bounds to
all three. What operators, indexing and built-in functions give lies in the realm again, since a value
lies in it if all that stands in it does.
-/

namespace Script

/-! ## What stands in a value -/

namespace Value

mutual

/-- What stands in the value, however deep, and has no parts itself. -/
def leaves : Value → List Value
  | array _ elements => leavesAll elements
  | hash _ pairs => leavesPairs pairs
  | returned v => leaves v
  | int n => [int n]
  | bool b => [bool b]
  | str s => [str s]
  | function id f => [function id f]
  | builtin b => [builtin b]
  | null => [null]
  | error e => [error e]

def leavesAll : List Value → List Value
  | [] => []
  | v :: vs => leaves v ++ leavesAll vs

def leavesPairs : Table Key Value → List Value
  | [] => []
  | (_, v) :: rest => leaves v ++ leavesPairs rest

end

theorem mem_leavesAll {vs : List Value} {u : Value} :
    u ∈ leavesAll vs ↔ ∃ v ∈ vs, u ∈ v.leaves := by
  induction vs with
  | nil => simp [leavesAll]
  | cons v vs ih => simp [leavesAll, ih]

theorem mem_leavesPairs {pairs : Table Key Value} {u : Value} :
    u ∈ leavesPairs pairs ↔ ∃ p ∈ pairs, u ∈ p.2.leaves := by
  induction pairs with
  | nil => simp [leavesPairs]
  | cons p ps ih => simp [leavesPairs, ih]

/-- No function made by a program stands in the value. -/
def FunctionFree (v : Value) : Prop :=
  ∀ u ∈ v.leaves, u.type ≠ .function

end Value

/-! ## Realms -/

/-- What a run keeps to. -/
structure Realm where
  /-- The scopes in which it evaluates, and in which the functions it meets were made. -/
  scope : ScopeId → Prop
  /-- The names that occur in the code it runs and in the functions it meets. -/
  name : String → Prop
  /-- The faults that stand in the values it meets. -/
  fault : Fault → Prop

namespace Realm

/-- A function belongs to the realm if it was made in one of its scopes and mentions its names only. -/
def leaf (realm : Realm) : Value → Prop
  | .function _ f => realm.scope f.scope ∧ ∀ x ∈ f.names, realm.name x
  | .error e => realm.fault e
  | _ => True

/-- All that stands in the value belongs to the realm. -/
def value (realm : Realm) (v : Value) : Prop :=
  ∀ u ∈ v.leaves, realm.leaf u

/-- No scope, name or fault is left out. -/
def everything : Realm :=
  ⟨fun _ => True, fun _ => True, fun _ => True⟩

theorem everything_value (v : Value) : everything.value v := by
  intro u _
  cases u with
  | function => exact ⟨trivial, fun _ _ => trivial⟩
  | _ => trivial

variable {realm : Realm}

theorem value_array {id : ObjectId} {vs : List Value} :
    realm.value (.array id vs) ↔ ∀ v ∈ vs, realm.value v := by
  constructor
  · intro h v here u there
    exact h u (Value.mem_leavesAll.2 ⟨v, here, there⟩)
  · intro h u there
    rcases Value.mem_leavesAll.1 there with ⟨v, here, there⟩
    exact h v here u there

theorem value_hash {id : ObjectId} {ps : Table Key Value} :
    realm.value (.hash id ps) ↔ ∀ p ∈ ps, realm.value p.2 := by
  constructor
  · intro h p here u there
    exact h u (Value.mem_leavesPairs.2 ⟨p, here, there⟩)
  · intro h u there
    rcases Value.mem_leavesPairs.1 there with ⟨p, here, there⟩
    exact h p here u there

theorem value_function {id : ObjectId} {f : Closure} :
    realm.value (.function id f) ↔ realm.scope f.scope ∧ ∀ x ∈ f.names, realm.name x :=
  List.forall_mem_singleton

theorem value_of_plain {v : Value} (h : v.isPlain = true) : realm.value v := by
  cases v with
  | array | hash | function | returned | error => cases h
  | _ => exact List.forall_mem_singleton.2 trivial

theorem value_of_part {v u : Value} (h : realm.value v) (part : u ∈ v.parts) : realm.value u := by
  cases v with
  | array id vs => exact value_array.1 h u part
  | hash id ps =>
    rcases List.mem_map.1 part with ⟨p, here, rfl⟩
    exact value_hash.1 h p here
  | _ => cases part

theorem value_unwrap {v : Value} (h : realm.value v) : realm.value v.unwrap := by
  cases v <;> exact h

end Realm
end Script
