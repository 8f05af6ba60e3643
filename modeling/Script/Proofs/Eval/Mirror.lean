import Mathlib.Order.Monotone.Basic
import Script.Proofs.Eval.Closed
import Script.Proofs.Eval.Lockstep

/-!
# States that mirror one another

The scopes of a realm look the same in two states: they bind the names of the realm to the same values
and lie in the same scopes, up to a renaming. Only outermost scopes may differ in that those of the
second state lie in one more scope, the ground, which binds nothing.

`Tracks realm ρ ground s s' u u'` says that one run has come from `s` to `u` and another one from `s'` to
`u'`, and that `u` and `u'` mirror one another. Main statement: `Tracks.mirror`, which lets all of
evaluation run in lockstep.
-/

namespace Script

/-! ## Renamings -/

/-- Leaves what lies below `bound` where it is, and moves the rest to `start`. -/
def shift (bound start i : Nat) : Nat :=
  if i < bound then i else start + (i - bound)

section

variable {bound start i : Nat}

theorem shift_of_lt (h : i < bound) : shift bound start i = i :=
  if_pos h

theorem shift_of_le (h : bound ≤ i) : shift bound start i = start + (i - bound) :=
  if_neg (Nat.not_lt.2 h)

theorem shift_succ (h : bound ≤ i) : shift bound start (i + 1) = shift bound start i + 1 := by
  rw [shift_of_le h, shift_of_le (Nat.le_succ_of_le h)]
  omega

theorem shift_strictMono (le : bound ≤ start) : StrictMono (shift bound start) := by
  intro i j less
  unfold shift
  split <;> split <;> omega

end

namespace Value

variable {ρ : Renaming} {scopes : ScopeId} {objects : ObjectId}

mutual

/-- A value stays the same where all it refers to keeps its identity. -/
theorem rename_eq_self (keeps : ∀ i < scopes, ρ.scope i = i)
    (keeps' : ∀ i < objects, ρ.object i = i) :
    (v : Value) → v.Within scopes objects → v.rename ρ = v
  | array id elements, h => by
    rw [rename, keeps' id h.1, renameAll_eq_self keeps keeps' elements h.2]
  | hash id pairs, h => by
    rw [rename, keeps' id h.1, renamePairs_eq_self keeps keeps' pairs h.2]
  | function id f, h => by
    rw [rename, keeps' id h.1, Closure.rename, keeps f.scope h.2]
  | returned v, h => by rw [rename, rename_eq_self keeps keeps' v h]
  | int _, _ | bool _, _ | str _, _ | builtin _, _ | null, _ | error _, _ => rfl

theorem renameAll_eq_self (keeps : ∀ i < scopes, ρ.scope i = i)
    (keeps' : ∀ i < objects, ρ.object i = i) :
    (vs : List Value) → WithinAll scopes objects vs → renameAll ρ vs = vs
  | [], _ => rfl
  | v :: vs, h => by
    rw [renameAll, rename_eq_self keeps keeps' v h.1, renameAll_eq_self keeps keeps' vs h.2]

theorem renamePairs_eq_self (keeps : ∀ i < scopes, ρ.scope i = i)
    (keeps' : ∀ i < objects, ρ.object i = i) :
    (pairs : Table Key Value) → WithinPairs scopes objects pairs → renamePairs ρ pairs = pairs
  | [], _ => rfl
  | (k, v) :: rest, h => by
    rw [renamePairs, rename_eq_self keeps keeps' v h.1, renamePairs_eq_self keeps keeps' rest h.2]

end

end Value

variable {realm : Realm} {ρ : Renaming} {ground : Option ScopeId}

/-- What has to be known of a renaming for runs that begin in `s`: the order of scopes and the
difference of objects are kept, and what is made behind `s` is made in the same order. -/
structure Renaming.Fits (ρ : Renaming) (realm : Realm) (ground : Option ScopeId) (s : State) :
    Prop where
  object : Function.Injective ρ.object
  order : ∀ i j, realm.scope i → realm.scope j → (ρ.scope i < ρ.scope j ↔ i < j)
  ground : ∀ g, ground = some g → ∀ i, realm.scope i → g < ρ.scope i
  new : ∀ i, s.scopes.size ≤ i → realm.scope i
  nextScope : ∀ i, s.scopes.size ≤ i → ρ.scope (i + 1) = ρ.scope i + 1
  nextObject : ∀ i, s.fresh ≤ i → ρ.object (i + 1) = ρ.object i + 1

/-- Different scopes stay different. -/
theorem Renaming.Fits.scope_eq_iff {s : State} (fits : ρ.Fits realm ground s) {i j : ScopeId}
    (hi : realm.scope i) (hj : realm.scope j) : ρ.scope i = ρ.scope j ↔ i = j := by
  constructor
  · intro same
    have not_less : ¬ i < j := fun less => Nat.ne_of_lt ((fits.order i j hi hj).2 less) same
    have not_greater : ¬ j < i := fun less => Nat.ne_of_gt ((fits.order j i hj hi).2 less) same
    exact Nat.le_antisymm (Nat.not_lt.1 not_greater) (Nat.not_lt.1 not_less)
  · exact congrArg ρ.scope

/-! ## Scopes that look the same -/

/-- The second scope binds the names of the realm to the renamed values and lies in the renamed scope,
or in the ground. -/
structure Scope.Mirrors (realm : Realm) (ρ : Renaming) (ground : Option ScopeId)
    (here here' : Scope) : Prop where
  bindings : ∀ x, realm.name x → here'.bindings.get? x = (here.bindings.get? x).map (Value.rename ρ)
  values : ∀ x v, realm.name x → here.bindings.get? x = some v → realm.value v
  outer : here'.outer = (here.outer.map ρ.scope).or ground
  inside : ∀ outer, here.outer = some outer → realm.scope outer

/-- Every scope of the realm looks like the one it is renamed to. -/
structure State.Mirrors (realm : Realm) (ρ : Renaming) (ground : Option ScopeId) (s s' : State) :
    Prop where
  scopes : ∀ i : ScopeId, realm.scope i →
    Option.Rel (Scope.Mirrors realm ρ ground) s.scopes[i]? s'.scopes[ρ.scope i]?
  ground : ∀ g, ground = some g → s'.scopes[g]? = some ⟨[], none⟩

/-- In a scope without names that lies in no other one, nothing is found. -/
theorem State.lookup_of_bare {s : State} {scope : ScopeId}
    (bare : s.scopes[scope]? = some ⟨[], none⟩) (x : String) : s.lookup x scope = none := by
  rw [State.lookup, bare]
  rfl

namespace State.Mirrors

variable {start s s' : State}

/-- Outer scopes come before inner ones in both states, so the same links are followed. -/
theorem lookup (mirrors : s.Mirrors realm ρ ground s') (fits : ρ.Fits realm ground start)
    {x : String} (named : realm.name x) {scope : ScopeId} (inside : realm.scope scope) :
    s'.lookup x (ρ.scope scope) = (s.lookup x scope).map (Value.rename ρ) ∧
      ∀ v, s.lookup x scope = some v → realm.value v := by
  have nothing : ∀ v, none = some v → realm.value v := by simp
  induction scope using Nat.strongRecOn with
  | ind scope ih =>
    rw [State.lookup, State.lookup.eq_1 s]
    have same := mirrors.scopes scope inside
    generalize s.scopes[scope]? = first at same ⊢
    generalize s'.scopes[ρ.scope scope]? = second at same ⊢
    cases same with
    | none => exact ⟨rfl, nothing⟩
    | @some here here' alike =>
      simp only [alike.bindings x named, alike.outer]
      cases bound : here.bindings.get? x with
      | some v => exact ⟨rfl, fun _ same => Option.some.inj same ▸ alike.values x v named bound⟩
      | none =>
        cases link : here.outer with
        | some outer =>
          have inside' := alike.inside outer link
          simp only [Option.map_none, Option.map_some, Option.some_or,
            fits.order outer scope inside' inside]
          split
          · exact ih outer ‹_› inside'
          · exact ⟨rfl, nothing⟩
        | none =>
          -- The first state has come to its end, the second one at most to the ground.
          refine ⟨?_, nothing⟩
          cases lies : ground with
          | none => rfl
          | some g =>
            simp only [Option.map_none, Option.none_or,
              State.lookup_of_bare (mirrors.ground g lies) x, ite_self]

theorem bind (mirrors : s.Mirrors realm ρ ground s') (fits : ρ.Fits realm ground start)
    {scope : ScopeId} {x : String} {v : Value} (inside : realm.scope scope)
    (whole : realm.value v) :
    (s.bind scope x v).Mirrors realm ρ ground (s'.bind (ρ.scope scope) x (v.rename ρ)) where
  scopes := by
    intro i inside'
    simp only [State.bind, Array.getElem?_modify, fits.scope_eq_iff inside inside']
    have same := mirrors.scopes i inside'
    generalize s.scopes[i]? = first at same ⊢
    generalize s'.scopes[ρ.scope i]? = second at same ⊢
    split
    · cases same with
      | none => exact .none
      | some alike =>
        refine .some ⟨fun y named => ?_, fun y w named bound => ?_, alike.outer, alike.inside⟩
        · rw [Table.get?_insert, Table.get?_insert, alike.bindings y named]
          split <;> rfl
        · rw [Table.get?_insert] at bound
          split at bound
          · exact Option.some.inj bound ▸ whole
          · exact alike.values y w named bound
    · exact same
  ground := by
    intro g lies
    have other : ρ.scope scope ≠ g := Nat.ne_of_gt (fits.ground g lies scope inside)
    simp only [State.bind, Array.getElem?_modify, if_neg other]
    exact mirrors.ground g lies

theorem addScope (mirrors : s.Mirrors realm ρ ground s') (fits : ρ.Fits realm ground start)
    (next : s'.scopes.size = ρ.scope s.scopes.size) (inside : realm.scope s.scopes.size)
    {bindings : Table String Value} {outer : ScopeId} (lies : realm.scope outer)
    (whole : ∀ x v, Table.get? x bindings = some v → realm.value v) :
    (s.addScope ⟨bindings, some outer⟩).2.Mirrors realm ρ ground
      (s'.addScope ⟨bindings.mapValues (Value.rename ρ), some (ρ.scope outer)⟩).2 where
  scopes := by
    intro i inside'
    simp only [State.addScope, Array.getElem?_push, next, fits.scope_eq_iff inside' inside]
    split
    · exact .some ⟨fun x _ => Table.get?_mapValues _ x bindings, fun x v _ => whole x v, rfl,
        fun _ same => Option.some.inj same ▸ lies⟩
    · exact mirrors.scopes i inside'
  ground := by
    intro g same
    have old : g < s'.scopes.size := (Array.getElem?_eq_some_iff.1 (mirrors.ground g same)).1
    simp only [State.addScope, Array.getElem?_push, if_neg (Nat.ne_of_lt old)]
    exact mirrors.ground g same

end State.Mirrors

/-! ## Names that are left alone -/

/-- In the scopes that were there, the names outside the realm are bound as before. -/
def State.Spares (realm : Realm) (s t : State) : Prop :=
  ∀ (i : ScopeId) (here : Scope), s.scopes[i]? = some here →
    ∃ after, t.scopes[i]? = some after ∧
      ∀ x, ¬ realm.name x → after.bindings.get? x = here.bindings.get? x

namespace State.Spares

variable {s t : State}

theorem refl (s : State) : s.Spares realm s := by
  intro i here there
  exact ⟨here, there, fun _ _ => rfl⟩

theorem of_scopes {u : State} (spares : s.Spares realm t) (same : u.scopes = t.scopes) :
    s.Spares realm u := by
  intro i here there
  rw [same]
  exact spares i here there

theorem bind (spares : s.Spares realm t) (scope : ScopeId) {x : String} (named : realm.name x)
    (v : Value) : s.Spares realm (t.bind scope x v) := by
  intro i here there
  rcases spares i here there with ⟨after, there', same⟩
  simp only [State.bind, Array.getElem?_modify, there']
  split
  · refine ⟨_, rfl, fun y other => ?_⟩
    have ne : y ≠ x := by
      rintro rfl
      exact other named
    rw [Table.get?_insert_of_ne ne]
    exact same y other
  · exact ⟨after, rfl, same⟩

theorem addScope (spares : s.Spares realm t) (new : Scope) : s.Spares realm (t.addScope new).2 := by
  intro i here there
  rcases spares i here there with ⟨after, there', same⟩
  have old : i < t.scopes.size := (Array.getElem?_eq_some_iff.1 there').1
  refine ⟨after, ?_, same⟩
  simp [State.addScope, Array.getElem?_push, Nat.ne_of_lt old, there']

end State.Spares

/-! ## Two runs -/

/-- A run that began in `s` has come to `u` on the way on which one that began in `s'` has come to
`u'`. -/
structure Tracks (realm : Realm) (ρ : Renaming) (ground : Option ScopeId) (s s' u u' : State) :
    Prop where
  scopes : u.Mirrors realm ρ ground u'
  newScope : u'.scopes.size = ρ.scope u.scopes.size
  newObject : u'.fresh = ρ.object u.fresh
  grows : s.Grows u
  spares : s.Spares realm u ∧ s'.Spares realm u'
  /-- Both runs have printed the same text. -/
  printed : ∃ out, u.printed = s.printed ++ out ∧ u'.printed = s'.printed ++ out

namespace Tracks

variable {s s' : State}

/-- Two runs at their start. -/
theorem start (mirrors : s.Mirrors realm ρ ground s')
    (newScope : s'.scopes.size = ρ.scope s.scopes.size) (newObject : s'.fresh = ρ.object s.fresh) :
    Tracks realm ρ ground s s' s s' where
  scopes := mirrors
  newScope := newScope
  newObject := newObject
  grows := .refl s
  spares := ⟨.refl s, .refl s'⟩
  printed := ⟨"", by simp, by simp⟩

theorem mirror (fits : ρ.Fits realm ground s) : realm.Mirror ρ (Tracks realm ρ ground s s') where
  injective := fits.object
  lookup related _ _ named inside := related.scopes.lookup fits named inside
  bind {u u'} related {scope x v} inside named whole :=
    { scopes := related.scopes.bind fits inside whole
      newScope := by simpa [State.bind] using related.newScope
      newObject := related.newObject
      grows := related.grows.trans (.bind u scope x v)
      spares := ⟨related.spares.1.bind scope named v, related.spares.2.bind _ named _⟩
      printed := related.printed }
  newScope related := ⟨related.newScope, fits.new _ related.grows.scopes⟩
  addScope {u u'} related {bindings outer} lies whole :=
    { scopes := related.scopes.addScope fits related.newScope (fits.new _ related.grows.scopes)
        lies whole
      newScope := by
        simp only [State.addScope, Array.size_push]
        rw [related.newScope, fits.nextScope _ related.grows.scopes]
      newObject := related.newObject
      grows := related.grows.trans (.addScope u _)
      spares := ⟨related.spares.1.addScope _, related.spares.2.addScope _⟩
      printed := related.printed }
  newObject related := related.newObject
  useFresh {u u'} related :=
    { scopes := ⟨related.scopes.scopes, related.scopes.ground⟩
      newScope := related.newScope
      newObject := by
        rw [State.useFresh, State.useFresh, related.newObject]
        exact (fits.nextObject _ related.grows.fresh).symm
      grows := related.grows.trans (.useFresh u)
      spares := ⟨related.spares.1.of_scopes rfl, related.spares.2.of_scopes rfl⟩
      printed := related.printed }
  printLine related line :=
    { scopes := ⟨related.scopes.scopes, related.scopes.ground⟩
      newScope := related.newScope
      newObject := related.newObject
      grows := ⟨related.grows.scopes, related.grows.fresh⟩
      spares := ⟨related.spares.1.of_scopes rfl, related.spares.2.of_scopes rfl⟩
      printed := by
        rcases related.printed with ⟨out, same, same'⟩
        exact ⟨out ++ line ++ "\n", by simp [State.printLine, same, String.append_assoc],
          by simp [State.printLine, same', String.append_assoc]⟩ }

end Tracks

end Script
