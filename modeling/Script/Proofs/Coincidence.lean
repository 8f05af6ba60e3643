import Script.Proofs.Eval.Mirror
import Script.Proofs.Eval.Sequence

/-!
# What a program depends on

A program may be run in an outermost scope in which other programs have run before. It looks up and
binds only the names that occur in it: what else is bound there, which other scopes and objects there
are and what was printed before makes no difference to it, and what else is bound there stays. The
values that it finds may be anything but functions, which bring along names of their own. Main
statement: `Program.run_coincides`.
-/

namespace Script

/-! ## Values without functions -/

namespace Value

section

variable {scopes scopes' : ScopeId} {objects : ObjectId}

mutual

/-- Only functions refer to scopes. -/
theorem within_of_functionFree : (v : Value) → (∀ u ∈ v.leaves, u.type ≠ .function) →
    v.Within scopes objects → v.Within scopes' objects
  | array _ elements, free, h => ⟨h.1, withinAll_of_functionFree elements free h.2⟩
  | hash _ pairs, free, h => ⟨h.1, withinPairs_of_functionFree pairs free h.2⟩
  | function id f, free, _ => absurd rfl (free (function id f) List.mem_cons_self)
  | returned v, free, h => within_of_functionFree v free h
  | int _, _, _ | bool _, _, _ | str _, _, _ | builtin _, _, _ | null, _, _ | error _, _, _ => trivial

theorem withinAll_of_functionFree : (vs : List Value) → (∀ u ∈ leavesAll vs, u.type ≠ .function) →
    WithinAll scopes objects vs → WithinAll scopes' objects vs
  | [], _, _ => trivial
  | v :: vs, free, h =>
    ⟨within_of_functionFree v (List.forall_mem_append.1 free).1 h.1,
      withinAll_of_functionFree vs (List.forall_mem_append.1 free).2 h.2⟩

theorem withinPairs_of_functionFree : (pairs : Table Key Value) →
    (∀ u ∈ leavesPairs pairs, u.type ≠ .function) →
    WithinPairs scopes objects pairs → WithinPairs scopes' objects pairs
  | [], _, _ => trivial
  | (_, v) :: rest, free, h =>
    ⟨within_of_functionFree v (List.forall_mem_append.1 free).1 h.1,
      withinPairs_of_functionFree rest (List.forall_mem_append.1 free).2 h.2⟩

end

end

/-- What is seen of a value: its type and its text. -/
def seen (v : Value) : ValueType × String :=
  (v.type, v.text)

theorem seen_rename (ρ : Renaming) (v : Value) : (v.rename ρ).seen = v.seen :=
  congrArg₂ Prod.mk (v.type_rename ρ) (v.text_rename ρ)

end Value

/-! ## Outermost scopes -/

namespace State

/-- What the name is bound to in the scope itself. -/
def boundIn (s : State) (scope : ScopeId) (x : String) : Option Value :=
  s.scopes[scope]?.bind fun here => here.bindings.get? x

/-- The scope is there and lies in no other one. -/
def Outermost (s : State) (scope : ScopeId) : Prop :=
  ∃ bindings, s.scopes[scope]? = some ⟨bindings, none⟩

end State

/-- Two outermost scopes of closed states that bind the names to the same values, all without
functions. -/
structure AgreeOn (names : List String) (s : State) (root : ScopeId) (s' : State) (root' : ScopeId) :
    Prop where
  closed : s.Closed ∧ s'.Closed
  outermost : s.Outermost root ∧ s'.Outermost root'
  same : ∀ x ∈ names, s'.boundIn root' x = s.boundIn root x
  free : ∀ x ∈ names, ∀ v, s.boundIn root x = some v → v.FunctionFree

/-- What a program with these names has done in two scopes, run from `s` to `t` and from `s'` to `t'`,
is the same as far as the names are concerned, and no other names are concerned. -/
structure Coincide (names : List String) (s : State) (root : ScopeId) (result : Option Value)
    (t : State) (s' : State) (root' : ScopeId) (result' : Option Value) (t' : State) : Prop where
  printed : ∃ out, t.printed = s.printed ++ out ∧ t'.printed = s'.printed ++ out
  result : result'.map Value.seen = result.map Value.seen
  /-- The names are bound to values that look the same, or to none. -/
  mentioned : ∀ x ∈ names, (t'.boundIn root' x).map Value.seen = (t.boundIn root x).map Value.seen
  /-- Other names are bound to the very values that they were bound to before. -/
  others : ∀ x, x ∉ names →
    t.boundIn root x = s.boundIn root x ∧ t'.boundIn root' x = s'.boundIn root' x

variable {names : List String} {s s' t t' : State} {root root' : ScopeId}
  {result result' : Option Value}

theorem AgreeOn.symm (agree : AgreeOn names s root s' root') : AgreeOn names s' root' s root where
  closed := agree.closed.symm
  outermost := agree.outermost.symm
  same x named := (agree.same x named).symm
  free x named v bound := agree.free x named v ((agree.same x named).symm.trans bound)

theorem Coincide.symm (same : Coincide names s root result t s' root' result' t') :
    Coincide names s' root' result' t' s root result t where
  printed := by
    rcases same.printed with ⟨out, first, second⟩
    exact ⟨out, second, first⟩
  result := same.result.symm
  mentioned x named := (same.mentioned x named).symm
  others x other := (same.others x other).symm

/-! ## Two runs -/

/-- The scope `root` and new ones, with the names and whatever faults. -/
def Realm.outermost (names : List String) (s : State) (root : ScopeId) : Realm :=
  ⟨fun i => i = root ∨ s.scopes.size ≤ i, fun x => x ∈ names, fun _ => True⟩

/-- Takes the scopes that are there for `root'`, and what is new behind `s` for what is new behind
`s'`. -/
def Renaming.between (s s' : State) (root' : ScopeId) : Renaming :=
  ⟨fun i => if i < s.scopes.size then root' else s'.scopes.size + (i - s.scopes.size),
    shift s.fresh s'.fresh⟩

section

variable {i : ScopeId}

theorem Renaming.between_of_lt (old : i < s.scopes.size) : (between s s' root').scope i = root' :=
  if_pos old

theorem Renaming.between_of_le (new : s.scopes.size ≤ i) :
    (between s s' root').scope i = s'.scopes.size + (i - s.scopes.size) :=
  if_neg (Nat.not_lt.2 new)

end

theorem State.Outermost.lt (outermost : s.Outermost root) : root < s.scopes.size := by
  rcases outermost with ⟨bindings, there⟩
  exact (Array.getElem?_eq_some_iff.1 there).1

theorem State.boundIn_eq {here : Scope} (there : s.scopes[root]? = some here) (x : String) :
    s.boundIn root x = here.bindings.get? x := by
  rw [boundIn, there]
  rfl

/-- Where there are no functions, there is nothing that could be out of bounds. -/
theorem Value.FunctionFree.inside {v : Value} (free : v.FunctionFree) :
    (Realm.outermost names s root).value v := by
  intro u here
  cases u with
  | function id f => exact absurd rfl (free (.function id f) here)
  | _ => trivial

namespace AgreeOn

variable (agree : AgreeOn names s root s' root')

include agree

theorem fits (le : s.fresh ≤ s'.fresh) :
    (Renaming.between s s' root').Fits (.outermost names s root) none s where
  object := (shift_strictMono le).injective
  order := by
    have old := agree.outermost.1.lt
    have old' := agree.outermost.2.lt
    rintro i j (rfl | new) (rfl | new')
    · exact iff_of_false (Nat.lt_irrefl _) (Nat.lt_irrefl _)
    · rw [Renaming.between_of_lt old, Renaming.between_of_le new']
      exact iff_of_true (Nat.lt_add_right _ old') (Nat.lt_of_lt_of_le old new')
    · rw [Renaming.between_of_lt old, Renaming.between_of_le new]
      exact iff_of_false (Nat.not_lt.2 (Nat.le_trans (Nat.le_of_lt old') (Nat.le_add_right _ _)))
        (Nat.not_lt.2 (Nat.le_trans (Nat.le_of_lt old) new))
    · rw [Renaming.between_of_le new, Renaming.between_of_le new']
      exact Nat.add_lt_add_iff_left.trans (Nat.sub_lt_sub_iff_right new)
  ground := nofun
  new _ new := .inr new
  nextScope := by
    intro i new
    rw [Renaming.between_of_le new, Renaming.between_of_le (Nat.le_succ_of_le new)]
    exact congrArg (s'.scopes.size + ·) (Nat.succ_sub new)
  nextObject _ new := shift_succ new

/-- What the scopes bind to a name has objects that were there before, so it keeps their identity. -/
theorem rename_eq_self {x : String} (named : x ∈ names) {v : Value}
    (bound : s.boundIn root x = some v) : v.rename (.between s s' root') = v := by
  rcases agree.outermost.1 with ⟨bindings, there⟩
  have within : v.In s := by
    rw [State.boundIn_eq there] at bound
    exact agree.closed.1.bound root _ there x v bound
  have within' : v.Within 0 s.fresh :=
    Value.within_of_functionFree v (agree.free x named v bound) within
  exact Value.rename_eq_self (fun i below => absurd below (Nat.not_lt_zero i))
    (fun _ => shift_of_lt) v within'

theorem mirrors : s.Mirrors (.outermost names s root) (.between s s' root') none s' where
  scopes := by
    rintro i (rfl | new)
    · rcases agree.outermost with ⟨⟨bindings, there⟩, ⟨bindings', there'⟩⟩
      rw [Renaming.between_of_lt agree.outermost.1.lt, there, there']
      have same (x : String) (named : x ∈ names) := agree.same x named
      have bound (x : String) := State.boundIn_eq there x
      have bound' (x : String) := State.boundIn_eq there' x
      refine .some ⟨fun x named => ?_, fun x v named found => ?_, rfl, nofun⟩
      · rw [← bound, ← bound', same x named]
        rcases found : s.boundIn i x with _ | v
        · rfl
        · exact congrArg some (agree.rename_eq_self named found).symm
      · exact (agree.free x named v ((bound x).trans found)).inside
    · have beyond : s'.scopes.size ≤ (Renaming.between s s' root').scope i := by
        rw [Renaming.between_of_le new]
        exact Nat.le_add_right _ _
      rw [Array.getElem?_eq_none_iff.2 new, Array.getElem?_eq_none_iff.2 beyond]
      exact .none
  ground := nofun

theorem tracks :
    Tracks (.outermost names s root) (.between s s' root') none s s' s s' := by
  refine .start agree.mirrors ?_ ?_
  · rw [Renaming.between_of_le (Nat.le_refl _), Nat.sub_self, Nat.add_zero]
  · simp [Renaming.between, shift]

end AgreeOn

/-! ## Outcomes -/

theorem Program.resultOf_rename (ρ : Renaming) (r : Except Fault (Option Value)) :
    resultOf (r.map (Option.map (Value.rename ρ))) = (resultOf r).map (Value.rename ρ) := by
  match r with
  | .error e => rfl
  | .ok none => rfl
  | .ok (some v) => exact congrArg some (Value.unwrap_rename ρ v)

theorem Value.map_seen_rename (ρ : Renaming) (found : Option Value) :
    (found.map (Value.rename ρ)).map seen = found.map seen := by
  cases found with
  | none => rfl
  | some v => exact congrArg some (v.seen_rename ρ)

theorem State.Mirrors.boundIn {realm : Realm} {ρ : Renaming} {ground : Option ScopeId}
    (mirrors : s.Mirrors realm ρ ground s') (inside : realm.scope root) {x : String}
    (named : realm.name x) : s'.boundIn (ρ.scope root) x = (s.boundIn root x).map (Value.rename ρ) := by
  have same := mirrors.scopes root inside
  unfold State.boundIn
  generalize s.scopes[root]? = first at same ⊢
  generalize s'.scopes[ρ.scope root]? = second at same ⊢
  cases same with
  | none => rfl
  | some agree => exact agree.bindings x named

theorem State.Spares.boundIn {realm : Realm} (spares : s.Spares realm t)
    (outermost : s.Outermost root) {x : String} (other : ¬ realm.name x) :
    t.boundIn root x = s.boundIn root x := by
  rcases outermost with ⟨bindings, there⟩
  rcases spares root _ there with ⟨after, there', same⟩
  rw [State.boundIn_eq there, State.boundIn_eq there', same x other]

/-! ## Programs -/

namespace Program

/-- Both runs end or neither, and they coincide. -/
def Coincides (program : Program) (s : State) (root : ScopeId) (s' : State) (root' : ScopeId) : Prop :=
  ((∃ result t, program.Gives root s result t) ↔ ∃ result t, program.Gives root' s' result t) ∧
  ∀ result t result' t', program.Gives root s result t → program.Gives root' s' result' t' →
    Coincide program.names s root result t s' root' result' t'

theorem coincides_of_le {program : Program} (agree : AgreeOn program.names s root s' root')
    (le : s.fresh ≤ s'.fresh) : program.Coincides s root s' root' := by
  let realm := Realm.outermost program.names s root
  have inside : realm.scope root := .inl rfl
  have names : ∀ x ∈ program.names, realm.name x := fun _ named => named
  have there : (Renaming.between s s' root').scope root = root' :=
    Renaming.between_of_lt agree.outermost.1.lt
  have lockstep := Ends.body_lockstep (Tracks.mirror (agree.fits le)) agree.tracks inside names
  rw [there] at lockstep
  rcases lockstep with ⟨both, same⟩
  refine ⟨exists_gives_iff.trans (both.trans exists_gives_iff.symm), ?_⟩
  intro result t result' t' gives gives'
  rcases gives_iff.1 gives with ⟨r, ends, rfl⟩
  rcases gives_iff.1 gives' with ⟨r', ends', rfl⟩
  rcases same r t r' t' ends ends' with ⟨rfl, tracks, -⟩
  refine ⟨tracks.printed, ?_, fun x named => ?_, fun x other => ⟨?_, ?_⟩⟩
  · rw [resultOf_rename, Value.map_seen_rename]
  · have bound := tracks.scopes.boundIn inside named
    rw [there] at bound
    rw [bound, Value.map_seen_rename]
  · exact tracks.spares.1.boundIn agree.outermost.1 other
  · exact tracks.spares.2.boundIn agree.outermost.2 other

/-- In outermost scopes that bind the names of a program to the same values without functions, the
program does the same. -/
theorem run_coincides {program : Program} (agree : AgreeOn program.names s root s' root') :
    program.Coincides s root s' root' := by
  rcases Nat.le_total s.fresh s'.fresh with le | le
  · exact coincides_of_le agree le
  · rcases coincides_of_le agree.symm le with ⟨both, same⟩
    refine ⟨both.symm, fun result t result' t' gives gives' => ?_⟩
    exact (same result' t' result t gives' gives).symm

/-- For example, it does not matter that there is an array `c` in the second state. -/
theorem run_coincides_array :
    let program : Program :=
      [.bind "b" (.array [.name "a"]), .expr (.index (.name "b") (.int 0))]
    let s : State := State.initial.bind State.root "a" (.int 1)
    let s' : State := (State.initial.useFresh.bind State.root "c" (.array 0 [])).bind State.root "a"
      (.int 1)
    AgreeOn program.names s State.root s' State.root ∧
      ∃ result t, program.Gives State.root s' result t ∧ result.map Value.seen = some (.int, "1") ∧
        (t.boundIn State.root "b").map Value.seen = some (.array, "[1]") ∧
        t.boundIn State.root "c" = some (.array 0 []) := by
  intro program s s'
  have closed : s.Closed := State.Closed.initial.bind State.root "a" trivial
  have used : State.initial.useFresh.Closed := .of_scopes .initial rfl (.useFresh _)
  have array : (Value.array 0 []).In State.initial.useFresh := ⟨by decide, trivial⟩
  have closed' : s'.Closed := (used.bind State.root "c" array).bind State.root "a" trivial
  have agree : AgreeOn program.names s State.root s' State.root := by
    refine ⟨⟨closed, closed'⟩, ⟨⟨_, rfl⟩, ⟨_, rfl⟩⟩, ?_, ?_⟩
    · exact List.forall_mem_cons.2 ⟨rfl, List.forall_mem_cons.2 ⟨rfl, List.forall_mem_singleton.2 rfl⟩⟩
    · refine List.forall_mem_cons.2 ⟨nofun, List.forall_mem_cons.2 ⟨?_, List.forall_mem_singleton.2 nofun⟩⟩
      intro v bound
      cases bound
      exact List.forall_mem_singleton.2 (by decide)
  have gives : program.Gives State.root s (some (.int 1))
      ⟨#[⟨[("a", .int 1), ("b", .array 0 [.int 1])], none⟩], 1, ""⟩ :=
    ⟨2, by with_unfolding_all rfl⟩
  rcases run_coincides agree with ⟨both, same⟩
  rcases both.1 ⟨_, _, gives⟩ with ⟨result, t, gives'⟩
  have coincide := same _ _ result t gives gives'
  refine ⟨agree, result, t, gives', ?_, ?_, ?_⟩
  · rw [coincide.result]
    decide
  · rw [coincide.mentioned "b" (by decide)]
    decide
  · rw [(coincide.others "c" (by decide)).2]
    rfl

end Program
end Script
