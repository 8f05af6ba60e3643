import Script.Eval.Expr

/-!
# Renaming scopes and objects

A renaming gives every scope and every object another identity. What a value is, what it prints and
what can be asked of it does not depend on identities, as long as different objects keep different
ones: operators, indexing, built-in checks and the scope of a call commute with a renaming.
-/

namespace Script

/-! ## Tables -/

namespace Table

variable {κ α β : Type}

/-- The table with `f` applied to its values. -/
def mapValues (f : α → β) : Table κ α → Table κ β :=
  List.map fun pair => (pair.1, f pair.2)

variable [DecidableEq κ]

@[simp]
theorem get?_mapValues (f : α → β) (k : κ) (t : Table κ α) :
    (t.mapValues f).get? k = (t.get? k).map f := by
  induction t with
  | nil => rfl
  | cons pair t ih =>
    rcases pair with ⟨j, v⟩
    by_cases same : j = k
    · simp [mapValues, get?, same]
    · simpa [mapValues, get?, same] using ih

@[simp]
theorem mapValues_insert (f : α → β) (k : κ) (v : α) (t : Table κ α) :
    (t.insert k v).mapValues f = (t.mapValues f).insert k (f v) := by
  induction t with
  | nil => rfl
  | cons pair t ih =>
    rcases pair with ⟨j, w⟩
    by_cases same : j = k
    · simp [mapValues, insert, same]
    · simpa [mapValues, insert, same] using ih

end Table

/-! ## Renamings -/

structure Renaming where
  scope : ScopeId → ScopeId
  object : ObjectId → ObjectId

/-- Everything keeps its identity. -/
def Renaming.identity : Renaming :=
  ⟨id, id⟩

/-- The function in the renamed scope. -/
def Closure.rename (ρ : Renaming) (f : Closure) : Closure :=
  { f with scope := ρ.scope f.scope }

namespace Value

mutual

/-- The value with all its objects and scopes renamed. -/
def rename (ρ : Renaming) : Value → Value
  | array id elements => array (ρ.object id) (renameAll ρ elements)
  | hash id pairs => hash (ρ.object id) (renamePairs ρ pairs)
  | function id closure => function (ρ.object id) (closure.rename ρ)
  | returned v => returned (rename ρ v)
  | int n => int n
  | bool b => bool b
  | str s => str s
  | builtin b => builtin b
  | null => null
  | error fault => error fault

def renameAll (ρ : Renaming) : List Value → List Value
  | [] => []
  | v :: vs => rename ρ v :: renameAll ρ vs

def renamePairs (ρ : Renaming) : Table Key Value → Table Key Value
  | [] => []
  | (k, v) :: rest => (k, rename ρ v) :: renamePairs ρ rest

end

variable (ρ : Renaming)

@[simp]
theorem renameAll_eq_map (vs : List Value) : renameAll ρ vs = vs.map (rename ρ) := by
  induction vs with
  | nil => rfl
  | cons v vs ih => simp [renameAll, ih]

@[simp]
theorem renamePairs_eq_map (pairs : Table Key Value) :
    renamePairs ρ pairs = pairs.mapValues (rename ρ) := by
  induction pairs with
  | nil => rfl
  | cons pair rest ih => simp [renamePairs, Table.mapValues, ih]

mutual

theorem rename_identity : (v : Value) → v.rename .identity = v
  | array id elements => by rw [rename, renameAll_identity elements]; rfl
  | hash id pairs => by rw [rename, renamePairs_identity pairs]; rfl
  | returned v => by rw [rename, rename_identity v]
  | int _ | bool _ | str _ | function .. | builtin _ | null | error _ => rfl

theorem renameAll_identity : (vs : List Value) → renameAll .identity vs = vs
  | [] => rfl
  | v :: vs => by rw [renameAll, rename_identity v, renameAll_identity vs]

theorem renamePairs_identity : (pairs : Table Key Value) → renamePairs .identity pairs = pairs
  | [] => rfl
  | (_, v) :: rest => by rw [renamePairs, rename_identity v, renamePairs_identity rest]

end

/-! ## What a renaming leaves alone -/

@[simp]
theorem type_rename (v : Value) : (v.rename ρ).type = v.type := by
  cases v <;> rfl

@[simp]
theorem isTruthy_rename (v : Value) : (v.rename ρ).isTruthy = v.isTruthy := by
  cases v <;> rfl

@[simp]
theorem isReturned_rename (v : Value) : (v.rename ρ).isReturned = v.isReturned := by
  cases v <;> rfl

@[simp]
theorem isCallable_rename (v : Value) : (v.rename ρ).isCallable = v.isCallable := by
  cases v <;> rfl

@[simp]
theorem key?_rename (v : Value) : (v.rename ρ).key? = v.key? := by
  cases v <;> rfl

@[simp]
theorem unwrap_rename (v : Value) : (v.rename ρ).unwrap = v.unwrap.rename ρ := by
  cases v <;> rfl

mutual

@[simp]
theorem render_rename : (v : Value) → (v.rename ρ).render = v.render
  | array id elements => by rw [rename, render_array, render_array, renderAll_renameAll elements]
  | hash id pairs => by rw [rename, render_hash, render_hash, renderPairs_renamePairs pairs]
  | returned v => by rw [rename, render_returned, render_returned, render_rename v]
  | function .. | int _ | bool _ | str _ | builtin _ | null | error _ => rfl

theorem renderAll_renameAll : (vs : List Value) → renderAll (renameAll ρ vs) = renderAll vs
  | [] => rfl
  | v :: vs => by simp only [renameAll, renderAll, render_rename v, renderAll_renameAll vs]

theorem renderPairs_renamePairs :
    (pairs : Table Key Value) → renderPairs (renamePairs ρ pairs) = renderPairs pairs
  | [] => rfl
  | (k, v) :: rest => by
    simp only [renamePairs, renderPairs, render_rename v, renderPairs_renamePairs rest]

end

@[simp]
theorem text_rename (v : Value) : (v.rename ρ).text = v.text := by
  rw [text, text, render_rename]

/-! ## Operators and indexing -/

variable {ρ} (injective : Function.Injective ρ.object)

include injective in
/-- Different objects stay different. -/
theorem identical_rename (v w : Value) :
    (v.rename ρ).identical (w.rename ρ) = v.identical w := by
  cases v <;> cases w <;> simp [rename, identical, injective.eq_iff]

theorem elementAt_rename (v w : Value) :
    (v.rename ρ).elementAt (w.rename ρ) = (v.elementAt w).map (rename ρ) := by
  cases v with
  | array id elements =>
    cases w with
    | int i =>
      simp only [rename, elementAt, renameAll_eq_map, Except.map]
      cases Integer.toIndex? i with
      | none => rfl
      | some i => cases there : elements[i]? <;> simp [there, rename]
    | _ => rfl
  | hash id pairs =>
    simp only [rename, elementAt, key?_rename, renamePairs_eq_map, Table.get?_mapValues]
    cases w.key? with
    | none => simp [Except.map]
    | some k => cases there : Table.get? k pairs <;> simp [there, rename, Except.map]
  | _ => rfl

end Value

variable {ρ : Renaming}

theorem UnaryOp.apply_rename (op : UnaryOp) (v : Value) :
    op.apply (v.rename ρ) = (op.apply v).map (Value.rename ρ) := by
  cases op <;> cases v <;> rfl

/-- What an operator makes of two integers is a plain value. -/
theorem BinaryOp.onInts_rename (op : BinaryOp) (m n : Int64) :
    op.onInts m n = (op.onInts m n).map (Value.rename ρ) := by
  cases op with
  | div =>
    simp only [onInts]
    split <;> rfl
  | _ => rfl

theorem BinaryOp.onOthers_rename (injective : Function.Injective ρ.object) (op : BinaryOp)
    (v w : Value) :
    op.onOthers (v.rename ρ) (w.rename ρ) = (op.onOthers v w).map (Value.rename ρ) := by
  cases op with
  | equal | notEqual => simp [onOthers, Value.identical_rename injective, Except.map, Value.rename]
  | _ =>
    simp only [onOthers, Value.type_rename]
    split <;> rfl

theorem BinaryOp.apply_rename (injective : Function.Injective ρ.object) (op : BinaryOp)
    (v w : Value) :
    op.apply (v.rename ρ) (w.rename ρ) = (op.apply v w).map (Value.rename ρ) := by
  have others := onOthers_rename injective op v w
  cases v with
  | int m =>
    cases w with
    | int n => exact onInts_rename op m n
    | _ => cases op <;> exact others
  | str s =>
    cases w with
    | str t => cases op <;> rfl
    | _ => cases op <;> exact others
  | _ => cases op <;> exact others

/-! ## The scope of a call -/

/-- The scope with what it binds, and the one it lies in, renamed. -/
def Scope.rename (ρ : Renaming) (here : Scope) : Scope :=
  ⟨here.bindings.mapValues (Value.rename ρ), here.outer.map ρ.scope⟩

theorem bindParams_rename (bindings : Table String Value) (params : List String)
    (args : List Value) :
    bindParams (bindings.mapValues (Value.rename ρ)) params (args.map (Value.rename ρ)) =
      (bindParams bindings params args).mapValues (Value.rename ρ) := by
  induction params generalizing bindings args with
  | nil => rfl
  | cons x params ih =>
    cases args with
    | nil => simpa [bindParams, Value.rename] using ih (bindings.insert x .null) []
    | cons v args => simpa [bindParams] using ih (bindings.insert x v) args

theorem Closure.frame_rename (f : Closure) (args : List Value) :
    (f.rename ρ).frame (args.map (Value.rename ρ)) = (f.frame args).rename ρ :=
  congrArg (Scope.mk · _) (bindParams_rename [] f.params args)

end Script
