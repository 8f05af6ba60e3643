import Script.Proofs.Map.Round

/-!
# Mapping a function over an array

The function `map`, once defined, maps any callable value over any array, provided that the built-in
functions that it uses can still be seen. If the value gives a fault for an element, so does the whole
call, and the elements behind it are never looked at.
-/

namespace Script

/-! ## The call of `map` -/

variable {scope : ScopeId} {m : Value} {s : State}

/-- What is run is a binding to a new function. -/
theorem mapDefinition_ends (scope : ScopeId) (s : State) :
    Ends (.statement scope mapDefinition) s (.ok none)
      (s.useFresh.bind scope "map" (.function s.fresh (mapClosure scope))) :=
  (Walk.bindStatement (x := "f") (.fn ["arr", "f"] mapBody) rfl).ends

/-- In the scope the definition of `map` has been run, which has made `m`, and the built-in functions
that it uses can still be seen from there. -/
structure MapDefined (scope : ScopeId) (m : Value) (s : State) : Prop where
  /-- Between `u` and `s` anything may have happened, so long as nothing has been taken away. -/
  defined : ∃ definition t r u, Program.parse (unlines mapText) = .ok [definition] ∧
    Ends (.statement scope definition) t r u ∧ u.lookup "map" scope = some m ∧ u.Grows s
  builtins : ∀ b ∈ mapBuiltins, evalName scope b.name s = some (.ok (.builtin b), s)

theorem MapDefined.closure (defined : MapDefined scope m s) :
    scope < s.scopes.size ∧ ∃ id, m = .function id (mapClosure scope) := by
  rcases defined.defined with ⟨definition, t, r, u, parsed, ends, bound, later⟩
  rw [parse_mapText] at parsed
  cases parsed
  rcases (mapDefinition_ends scope t).unique ends with ⟨-, rfl⟩
  have there := State.lt_of_lookup bound
  rw [State.lookup_bind_self (by simpa [State.bind] using there)] at bound
  cases bound
  exact ⟨there.trans_le later.scopes, _, rfl⟩

/-- A call of `map` with these arguments, up to where `iter` has been bound. -/
def iterBound (scope : ScopeId) (args : List Value) (s : State) : State :=
  (s.addScope ((mapClosure scope).frame args)).2.useFresh.bind s.scopes.size "iter"
    (.function s.fresh (iterClosure s.scopes.size))

theorem iterBound_here (scope : ScopeId) (v f : Value) (s : State) :
    (iterBound scope [v, f] s).scopes[s.scopes.size]? =
      some ⟨[("arr", v), ("f", f), ("iter", .function s.fresh (iterClosure s.scopes.size))],
        some scope⟩ := by
  have new : (s.addScope ((mapClosure scope).frame [v, f])).2.useFresh.scopes[s.scopes.size]? =
      some ((mapClosure scope).frame [v, f]) := Array.getElem?_push_size
  have frame : (mapClosure scope).frame [v, f] = ⟨[("arr", v), ("f", f)], some scope⟩ := by
    simp [Closure.frame, mapClosure, bindParams, Table.insert]
  rw [iterBound, State.getElem?_bind new, frame]
  simp [Table.insert]

theorem iterBound_extends (scope : ScopeId) (args : List Value) (s : State) :
    s.Extends (iterBound scope args s) := by
  have framed := Frame.bind s.scopes.size "iter" (.function s.fresh (iterClosure s.scopes.size))
    (s.addScope ((mapClosure scope).frame args)).2
  exact ⟨Frame.untouched ⟨framed.others, framed.own⟩,
    ((State.Grows.addScope s _).trans (.useFresh _)).trans (.bind _ _ _ _)⟩

/-- What `iter` needs can be seen where it is bound. -/
theorem MapDefined.sees (defined : MapDefined scope m s) (v f : Value) :
    Sees f s.scopes.size s.scopes.size (iterBound scope [v, f] s) := by
  have here := iterBound_here scope v f s
  refine ⟨by simp [iterBound, State.bind, State.addScope, State.useFresh], ⟨s.fresh, ?_⟩, ?_,
    fun b used => ?_⟩
  · exact State.lookup_of_bound here (by simp [Table.get?])
  · exact State.lookup_of_bound here (by simp [Table.get?])
  · -- The built-in functions are hidden neither by the parameters of `map` nor by `iter`.
    have plain : ∀ b ∈ mapBuiltins, "arr" ≠ b.name ∧ "f" ≠ b.name ∧ "iter" ≠ b.name := by decide
    have before := defined.closure.1
    refine evalName_congr ?_ (defined.builtins b used)
    rw [State.lookup_of_outer here (by simp [Table.get?, plain b used]) rfl before]
    exact (iterBound_extends scope [v, f] s).untouched.lookup _ before

/-- A call of `map` begins a round in which nothing has been gathered. -/
theorem MapDefined.begins (defined : MapDefined scope m s) (id : ObjectId) (vs : List Value)
    (f : Value) :
    ∃ i s', Round f s.scopes.size i s.fresh vs [] s' ∧ s.Extends s' ∧ s'.printed = s.printed ∧
      ∀ r t us log, r.map Value.unwrap = r → IterRun f i s' us r t log →
        m.CallEnds [.array id vs, f] s r t ∧
          ∀ c, m.Applies "f" [.array id vs, f] s c ↔ c ∈ log := by
  rcases defined.closure with ⟨-, id', rfl⟩
  have extended := iterBound_extends scope [.array id vs, f] s
  have sees := defined.sees (.array id vs) f
  rcases sees.iter with ⟨id'', iter⟩
  have arr : (iterBound scope [.array id vs, f] s).lookup "arr" s.scopes.size =
      some (.array id vs) :=
    State.lookup_of_bound (iterBound_here scope _ f s) (by simp [Table.get?])
  have made : s.fresh ≤ (iterBound scope [.array id vs, f] s).fresh := extended.grows.fresh
  have round := (sees.later (.useFresh _)).round id vs [] made (Nat.le_succ_of_le made)
  refine ⟨_, _, round, extended.trans ((State.Extends.useFresh _).trans (.addScope _ _)), rfl, ?_⟩
  intro r t us log settled run
  have binds : Walk "f" (.statement s.scopes.size (.bind "iter" (.fn ["arr", "accumulated"] iterBody)))
      (s.addScope ((mapClosure scope).frame [.array id vs, f])).2 (.ok none)
      (iterBound scope [.array id vs, f] s) [] := .bindStatement (.fn _ _) rfl
  have called := Walk.call (x := "f") (f := .name "iter") (by simp) (.name (evalName_of_lookup iter))
    (.cons (.name (evalName_of_lookup arr)) (.cons (.array .nil) .nil)) run.walk
  rw [unwrapped_of_settled settled] at called
  have body : Walk "f" (.body s.scopes.size mapBody) _ _ t log :=
    .body (binds.following rfl (.single called.exprStatement))
  have ends : (Value.function id' (mapClosure scope)).CallEnds [.array id vs, f] s _ t :=
    .function body.ends
  rw [unwrapped_of_settled settled] at ends
  refine ⟨ends, fun c => ⟨?_, fun mem => ⟨id', _, rfl, (body.calls c).2 mem⟩⟩⟩
  rintro ⟨_, _, same, applied⟩
  cases same
  exact (body.calls c).1 applied

/-! ## The main theorem -/

/-- While `m` is called, `f` is called on each of the values once, in their order, and on no others. -/
def Value.CallsOnEach (m f : Value) (args : List Value) (s : State) (vs : List Value) : Prop :=
  ∃ log, OneEach f vs log ∧ ∀ c, m.Applies "f" args s c ↔ c ∈ log

/-- Called in `s`, the value `m` maps what it is given over an array. -/
structure Value.MapsArrays (m : Value) (s : State) : Prop where
  /-- If `f` gives a value for each element, a new array of these values is given. Nothing is printed,
  and the scopes that were there are left alone. -/
  values : ∀ (same : Value → Value → Prop) (g : Value → Value) (f : Value) (id : ObjectId)
    (vs : List Value), f.isCallable = true → (∀ v ∈ vs, Behaves f same g s v) →
    ∃ id' ws t, m.CallEnds [.array id vs, f] s (.ok (.array id' ws)) t ∧ s.fresh ≤ id' ∧
      List.Forall₂ same ws (vs.map g) ∧ Untouched s t ∧ t.printed = s.printed ∧
      m.CallsOnEach f [.array id vs, f] s vs
  /-- If `f` gives a value for each element up to one for which it fails, so does the call, and `f` is
  not called on the elements behind. -/
  fault : ∀ (same : Value → Value → Prop) (g : Value → Value) (f : Value) (e : Fault) (id : ObjectId)
    (before : List Value) (v : Value) (after : List Value), f.isCallable = true →
    (∀ u ∈ before, Behaves f same g s u) →
    (∀ t, s.Extends t → ∃ u, f.CallEnds [v] t (.error e) u) →
    ∃ t, m.CallEnds [.array id (before ++ v :: after), f] s (.error e) t ∧
      m.CallsOnEach f [.array id (before ++ v :: after), f] s (before ++ [v])

/-- Once it has been defined, `map` maps what it is given over arrays. -/
theorem map_maps_arrays (defined : MapDefined scope m s) : m.MapsArrays s where
  values := by
    intro same g f id vs callable each
    rcases defined.begins id vs f with ⟨i, s', round, later, quiet, run⟩
    -- All elements are in front, so the last round has none left.
    rw [← List.append_nil vs] at round
    have each' : ∀ v ∈ vs, Behaves f same g s' v :=
      fun v mem t after => each v mem t (later.trans after)
    rcases round.loop callable each' with ⟨ws, i', t, values, last, later', quiet', loop⟩
    rcases last.finished with ⟨id', new, done⟩
    rcases loop _ _ _ _ rfl done with ⟨log, all⟩
    rcases run _ _ _ _ rfl all with ⟨ends, calls⟩
    rw [List.append_nil] at all
    exact ⟨id', ws, t, ends, new, values, (later.trans later').untouched, quiet'.trans quiet,
      log, all.each, calls⟩
  fault := by
    intro same g f e id before v after callable each fails
    rcases defined.begins id (before ++ v :: after) f with ⟨i, s', round, later, quiet, run⟩
    have each' : ∀ v ∈ before, Behaves f same g s' v :=
      fun v mem t after => each v mem t (later.trans after)
    rcases round.loop callable each' with ⟨ws, i', t, -, last, later', -, loop⟩
    have extended : s.Extends t.useFresh := (later.trans later').trans (.useFresh t)
    rcases fails t.useFresh extended with ⟨u, failed⟩
    rcases loop _ _ _ _ rfl (last.fails callable failed) with ⟨log, all⟩
    rcases run _ _ _ _ rfl all with ⟨ends, calls⟩
    exact ⟨u, ends, log, all.each, calls⟩

/-! ## An example -/

/-- The function `fn(x) { x * 2 }`, made at the outermost level. -/
def doubles : Value :=
  .function 1 ⟨["x"], [.expr (.binary .mul (.name "x") (.int 2))], State.root⟩

/-- What it makes of integers. -/
def doubled : Value → Value
  | .int n => .int (n * 2)
  | v => v

/-- It gives what multiplication gives. -/
theorem doubles_ends {v : Value} {r : Except Fault Value} (gives : BinaryOp.mul.apply v (.int 2) = r)
    (settled : r.map Value.unwrap = r) (s : State) :
    doubles.CallEnds [v] s r (s.addScope ⟨[("x", v)], some State.root⟩).2 := by
  have bound : (s.addScope ⟨[("x", v)], some State.root⟩).2.lookup "x" s.scopes.size = some v :=
    State.lookup_addScope_self (by simp [Table.get?])
  have product : Ends (.expr s.scopes.size (.binary .mul (.name "x") (.int 2))) _ _ _ :=
    .binary (.name (evalName_of_lookup bound)) (Walk.int (x := "x") 2).ends
  rw [gives] at product
  have body : Ends (.statements s.scopes.size none [.expr (.binary .mul (.name "x") (.int 2))])
      _ _ _ := .single product.exprStatement
  have ends : doubles.CallEnds [v] s _ _ := .function body
  rw [unwrapped_of_settled settled] at ends
  exact ends

/-- The initial state, after `map` has been defined. -/
def withMap : State :=
  State.initial.useFresh.bind State.root "map" (.function 0 (mapClosure State.root))

theorem mapDefined_withMap : MapDefined State.root (.function 0 (mapClosure State.root)) withMap where
  defined := ⟨mapDefinition, .initial, _, withMap, parse_mapText,
    mapDefinition_ends State.root .initial, State.lookup_bind_self (by decide) "map" _, .refl withMap⟩
  builtins := by
    have here : withMap.scopes[State.root]? =
        some ⟨[("map", .function 0 (mapClosure State.root))], none⟩ := rfl
    have plain : ∀ b ∈ mapBuiltins, "map" ≠ b.name ∧ Builtin.ofName? b.name = some b := by decide
    intro b used
    have none : withMap.lookup b.name State.root = none := by
      rw [State.lookup, here]
      simp [Table.get?, plain b used]
    rw [evalName_eq, none, (plain b used).2]

theorem map_maps_arrays_doubles :
    MapDefined State.root (.function 0 (mapClosure State.root)) withMap ∧
    (∃ id t, (Value.function 0 (mapClosure State.root)).CallEnds
      [.array 2 [.int 1, .int 2], doubles] withMap (.ok (.array id [.int 2, .int 4])) t) ∧
    ∃ t, (Value.function 0 (mapClosure State.root)).CallEnds
      [.array 2 [.int 1, .bool true, .int 3], doubles] withMap
      (.error (.typeMismatch .bool .mul .int)) t := by
  have ints (n : Int64) : Behaves doubles Eq doubled withMap (.int n) :=
    fun t _ => ⟨_, _, doubles_ends rfl rfl t, rfl, rfl⟩
  have maps := map_maps_arrays mapDefined_withMap
  refine ⟨mapDefined_withMap, ?_, ?_⟩
  · rcases maps.values Eq doubled doubles 2 [.int 1, .int 2] rfl (by simp [ints]) with
      ⟨id, ws, t, ends, -, values, -⟩
    rw [List.forall₂_eq_eq_eq] at values
    cases values
    exact ⟨id, t, ends⟩
  · rcases maps.fault Eq doubled doubles _ 2 [.int 1] (.bool true) [.int 3] rfl (by simp [ints])
      (fun t _ => ⟨_, doubles_ends rfl rfl t⟩) with ⟨t, ends, -⟩
    exact ⟨t, ends⟩

end Script
