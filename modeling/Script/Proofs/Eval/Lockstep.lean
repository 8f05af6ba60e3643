import Script.Proofs.Eval.Bound
import Script.Proofs.Eval.Realm
import Script.Proofs.Eval.Rename
import Script.Proofs.Eval.Task

/-!
# Runs in lockstep

Two states that look the same up to a renaming of scopes and objects stay so under evaluation: either
both evaluations are cut off, or both end, with the same fault or with values that differ by the
renaming, in states that look the same again.

They need not look the same everywhere. A realm says which scopes, names and values a run keeps to;
only there the states are compared, and the run stays there. `Realm.Mirror realm ρ R` says what the
relation `R` between the two states has to provide: one field for each way of looking at a state or
changing it. `Lockstep R f P x y` says that `y` does to the second state what `x` does to the first.
There is one lemma for each part of the evaluator, over any evaluator of parts, and one induction on
the depth.
-/

namespace Script

/-! ## Mirrored states -/

/-- In the realm, states related by `R` look the same up to the renaming `ρ`, and what is done to both
keeps them related. -/
structure Realm.Mirror (realm : Realm) (ρ : Renaming) (R : State → State → Prop) : Prop where
  injective : Function.Injective ρ.object
  lookup : ∀ {s s'}, R s s' → ∀ {x scope}, realm.name x → realm.scope scope →
    s'.lookup x (ρ.scope scope) = (s.lookup x scope).map (Value.rename ρ) ∧
      ∀ v, s.lookup x scope = some v → realm.value v
  bind : ∀ {s s'}, R s s' → ∀ {scope x v}, realm.scope scope → realm.name x → realm.value v →
    R (s.bind scope x v) (s'.bind (ρ.scope scope) x (v.rename ρ))
  /-- A new scope of the first state is renamed to the new scope of the second one. -/
  newScope : ∀ {s s'}, R s s' → s'.scopes.size = ρ.scope s.scopes.size ∧ realm.scope s.scopes.size
  addScope : ∀ {s s'}, R s s' → ∀ {bindings outer}, realm.scope outer →
    (∀ x v, Table.get? x bindings = some v → realm.value v) →
    R (s.addScope ⟨bindings, some outer⟩).2
      (s'.addScope ⟨bindings.mapValues (Value.rename ρ), some (ρ.scope outer)⟩).2
  /-- A new object of the first state is renamed to the new object of the second one. -/
  newObject : ∀ {s s'}, R s s' → s'.fresh = ρ.object s.fresh
  useFresh : ∀ {s s'}, R s s' → R s.useFresh s'.useFresh
  printLine : ∀ {s s'}, R s s' → ∀ line, R (s.printLine line) (s'.printLine line)

/-! ## Two evaluations -/

namespace Eval

variable {α β γ δ : Type}

/-- From related states, both evaluations are cut off, or both end in related states: with the same
fault, or the first one with a value that satisfies `P` and the second one with its image under
`f`. -/
def Lockstep (R : State → State → Prop) (f : α → β) (P : α → Prop) (x : Eval α) (y : Eval β) : Prop :=
  ∀ s s', R s s' → (x s = none ∧ y s' = none) ∨
    ∃ r t t', x s = some (r, t) ∧ y s' = some (r.map f, t') ∧ R t t' ∧ ∀ a, r = .ok a → P a

namespace Lockstep

variable {R : State → State → Prop} {f : α → β} {g : γ → δ} {P : α → Prop} {Q : γ → Prop}

theorem pure {a : α} {b : β} (same : b = f a) (pass : P a) :
    Lockstep R f P (Pure.pure a : Eval α) (Pure.pure b : Eval β) := by
  intro s s' related
  subst same
  exact .inr ⟨.ok a, s, s', rfl, rfl, related, fun _ same => Except.ok.inj same ▸ pass⟩

theorem fail (e : Fault) : Lockstep R f P (Eval.fail e : Eval α) (Eval.fail e : Eval β) := by
  intro s s' related
  exact .inr ⟨.error e, s, s', rfl, rfl, related, nofun⟩

theorem ofExcept {x : Except Fault α} {y : Except Fault β} (same : y = x.map f)
    (pass : ∀ a, x = .ok a → P a) : Lockstep R f P (Eval.ofExcept x) (Eval.ofExcept y) := by
  intro s s' related
  subst same
  exact .inr ⟨x, s, s', rfl, rfl, related, pass⟩

theorem change {x : State → α × State} {y : State → β × State}
    (same : ∀ {s s'}, R s s' → (y s').1 = f (x s).1 ∧ P (x s).1)
    (keeps : ∀ {s s'}, R s s' → R (x s).2 (y s').2) :
    Lockstep R f P (Eval.change x) (Eval.change y) := by
  intro s s' related
  rcases same related with ⟨image, pass⟩
  refine .inr ⟨.ok (x s).1, (x s).2, (y s').2, rfl, ?_, keeps related,
    fun _ same => Except.ok.inj same ▸ pass⟩
  exact congrArg (fun b => some (Except.ok b, (y s').2)) image

theorem look {x : State → α} {y : State → β} (same : ∀ {s s'}, R s s' → y s' = f (x s) ∧ P (x s)) :
    Lockstep R f P (Eval.look x) (Eval.look y) := by
  intro s s' related
  rcases same related with ⟨image, pass⟩
  refine .inr ⟨.ok (x s), s, s', rfl, ?_, related, fun _ same => Except.ok.inj same ▸ pass⟩
  exact congrArg (fun b => some (Except.ok b, s')) image

/-- What goes on has to be in lockstep only for values that satisfy `P` and differ by `f`. -/
theorem bind {x : Eval α} {y : Eval β} {k : α → Eval γ} {l : β → Eval δ} (first : Lockstep R f P x y)
    (next : ∀ a, P a → Lockstep R g Q (k a) (l (f a))) : Lockstep R g Q (x >>= k) (y >>= l) := by
  intro s s' related
  rcases first s s' related with ⟨cut, cut'⟩ | ⟨r, t, t', ends, ends', related', pass⟩
  · exact .inl ⟨by rw [bind_apply, cut], by rw [bind_apply, cut']⟩
  · cases r with
    | ok a => simpa only [bind_apply, ends, ends', Except.map] using next a (pass a rfl) t t' related'
    | error e =>
      refine .inr ⟨.error e, t, t', ?_, ?_, related', nofun⟩
      · rw [bind_apply, ends]
      · rw [bind_apply, ends']
        rfl

end Lockstep
end Eval

open Eval (Lockstep)

section

variable {realm : Realm} {ρ : Renaming} {R : State → State → Prop}
  (mirror : realm.Mirror ρ R)

include mirror

/-! ## Steps on the state -/

theorem newArray_lockstep {elements : List Value} (inside : ∀ v ∈ elements, realm.value v) :
    Lockstep R (Value.rename ρ) realm.value (Eval.newArray elements)
      (Eval.newArray (elements.map (Value.rename ρ))) :=
  .change (fun related => ⟨by simp [Value.rename, mirror.newObject related],
    Realm.value_array.2 inside⟩) mirror.useFresh

theorem newHash_lockstep {pairs : Table Key Value} (inside : ∀ p ∈ pairs, realm.value p.2) :
    Lockstep R (Value.rename ρ) realm.value (Eval.newHash pairs)
      (Eval.newHash (pairs.mapValues (Value.rename ρ))) :=
  .change (fun related => ⟨by simp [Value.rename, mirror.newObject related],
    Realm.value_hash.2 inside⟩) mirror.useFresh

theorem newFunction_lockstep {closure : Closure} (inside : realm.scope closure.scope)
    (names : ∀ x ∈ closure.names, realm.name x) :
    Lockstep R (Value.rename ρ) realm.value (Eval.newFunction closure)
      (Eval.newFunction (closure.rename ρ)) :=
  .change (fun related => ⟨by simp [Value.rename, mirror.newObject related],
    Realm.value_function.2 ⟨inside, names⟩⟩) mirror.useFresh

theorem evalName_lockstep {scope : ScopeId} {x : String} (inside : realm.scope scope)
    (named : realm.name x) :
    Lockstep R (Value.rename ρ) realm.value (evalName scope x) (evalName (ρ.scope scope) x) := by
  have seen : Lockstep R (Option.map (Value.rename ρ)) (fun found => ∀ v, found = some v → realm.value v)
      (Eval.look (·.lookup x scope)) (Eval.look (·.lookup x (ρ.scope scope))) :=
    .look fun related => mirror.lookup related named inside
  refine seen.bind fun found whole => ?_
  cases found with
  | some v => exact .pure rfl (whole v rfl)
  | none =>
    cases Builtin.ofName? x with
    | some b => exact .pure rfl (Realm.value_of_plain rfl)
    | none => exact .fail _

end

/-! ## Built-in functions -/

namespace Builtin

variable {ρ : Renaming}

theorem single_rename (args : List Value) :
    single (args.map (Value.rename ρ)) = (single args).map (Value.rename ρ) := by
  match args with
  | [v] => rfl
  | [] | _ :: _ :: _ => simp [single, Except.map]

theorem elements_rename (b : Builtin) (v : Value) :
    elements b (v.rename ρ) = (elements b v).map (List.map (Value.rename ρ)) := by
  cases v with
  | array id vs => simp [Value.rename, elements, Except.map]
  | _ => rfl

theorem length_rename (v : Value) : length (v.rename ρ) = (length v).map (Value.rename ρ) := by
  cases v with
  | array id vs => simp [Value.rename, length, Except.map]
  | _ => rfl

variable {realm : Realm} {R : State → State → Prop}
  (mirror : realm.Mirror ρ R)

theorem single_inside {args : List Value} (inside : ∀ v ∈ args, realm.value v) :
    Lockstep R (Value.rename ρ) realm.value (Eval.ofExcept (single args))
      (Eval.ofExcept (single (args.map (Value.rename ρ)))) :=
  .ofExcept (single_rename args) fun v one => inside v (by simp [single_eq one])

theorem elements_inside (b : Builtin) {v : Value} (inside : realm.value v) :
    Lockstep R (List.map (Value.rename ρ)) (fun vs => ∀ u ∈ vs, realm.value u)
      (Eval.ofExcept (elements b v)) (Eval.ofExcept (elements b (v.rename ρ))) :=
  .ofExcept (elements_rename b v) fun _ found _ here =>
    Realm.value_of_part inside (elements_origin found ▸ here)

include mirror in
theorem printAll_lockstep (vs : List Value) :
    Lockstep R id (fun _ => True) (printAll vs) (printAll (vs.map (Value.rename ρ))) := by
  induction vs with
  | nil => exact .pure rfl trivial
  | cons v vs ih =>
    have line : Lockstep R id (fun _ => True) (Eval.printLine v.text) (Eval.printLine v.text) :=
      .change (fun _ => ⟨rfl, trivial⟩) fun related => mirror.printLine related v.text
    simp only [List.map_cons, printAll, Value.text_rename]
    exact line.bind fun _ _ => ih

include mirror

theorem run_lockstep (b : Builtin) {args : List Value} (inside : ∀ v ∈ args, realm.value v) :
    Lockstep R (Value.rename ρ) realm.value (b.run args) (b.run (args.map (Value.rename ρ))) := by
  have first := single_inside (R := R) (ρ := ρ) inside
  have null : realm.value .null := Realm.value_of_plain rfl
  cases b with
  | len =>
    exact first.bind fun v _ => .ofExcept (length_rename v) fun w measured =>
      Realm.value_of_plain (length_plain measured)
  | first =>
    refine first.bind fun v whole => (elements_inside .first whole).bind fun vs parts => ?_
    cases vs with
    | nil => exact .pure rfl null
    | cons w vs => exact .pure rfl (parts w List.mem_cons_self)
  | last =>
    refine first.bind fun v whole => (elements_inside .last whole).bind fun vs parts => ?_
    rw [List.getLast?_map]
    cases final : vs.getLast? with
    | none => exact .pure rfl null
    | some w => exact .pure rfl (parts w (List.mem_of_getLast? final))
  | rest =>
    refine first.bind fun v whole => (elements_inside .rest whole).bind fun vs parts => ?_
    cases vs with
    | nil => exact .pure rfl null
    | cons w vs =>
      exact newArray_lockstep mirror fun u here => parts u (List.mem_cons_of_mem w here)
  | push =>
    match args with
    | [v, item] =>
      rcases List.forall_mem_cons.1 inside with ⟨whole, others⟩
      refine (elements_inside .push whole).bind fun vs parts => ?_
      have items : ∀ u ∈ vs ++ [item], realm.value u := List.forall_mem_append.2 ⟨parts, others⟩
      simpa using newArray_lockstep mirror items
    | [] | [_] => exact .fail _
    | _ :: _ :: _ :: more =>
      simp only [run, List.map_cons, List.length_cons, List.length_map]
      exact .fail _
  | puts => exact (printAll_lockstep mirror args).bind fun _ _ => .pure rfl null

theorem call_lockstep (b : Builtin) {args : List Value} (inside : ∀ v ∈ args, realm.value v) :
    Lockstep R (Value.rename ρ) realm.value (b.call args) (b.call (args.map (Value.rename ρ))) := by
  have checked : Lockstep R id (fun _ => True) (Eval.ofExcept (b.checkArity args.length))
      (Eval.ofExcept (b.checkArity args.length)) :=
    .ofExcept (by cases b.checkArity args.length <;> rfl) fun _ _ => trivial
  simp only [call, List.length_map]
  exact checked.bind fun _ _ => run_lockstep mirror b inside

end Builtin

/-! ## One step of evaluation -/

/-- In a scope of the realm the evaluator does with code of the realm what it does in the renamed
scope. -/
def Evaluator.InStep (realm : Realm) (ρ : Renaming) (R : State → State → Prop) (eval : Evaluator) :
    Prop :=
  ∀ scope e, realm.scope scope → (∀ x ∈ e.names, realm.name x) →
    Lockstep R (Value.rename ρ) realm.value (eval scope e) (eval (ρ.scope scope) e)

section

variable {realm : Realm} {ρ : Renaming} {R : State → State → Prop}
  (mirror : realm.Mirror ρ R) {eval : Evaluator} (same : eval.InStep realm ρ R) {scope : ScopeId}
  (inside : realm.scope scope)

include same inside

theorem evalAll_lockstep {es : List Expr} (names : ∀ x ∈ listNames es, realm.name x) :
    Lockstep R (List.map (Value.rename ρ)) (fun vs => ∀ v ∈ vs, realm.value v)
      (evalAll (eval scope) es) (evalAll (eval (ρ.scope scope)) es) := by
  induction es with
  | nil => exact .pure rfl (List.forall_mem_nil _)
  | cons e es ih =>
    rcases List.forall_mem_append.1 names with ⟨first, others⟩
    refine (same scope e inside first).bind fun v whole => (ih others).bind fun vs wholes => ?_
    exact .pure rfl (List.forall_mem_cons.2 ⟨whole, wholes⟩)

theorem evalPairs_lockstep {table : Table Key Value} {ps : List (Expr × Expr)}
    (before : ∀ p ∈ table, realm.value p.2) (names : ∀ x ∈ pairNames ps, realm.name x) :
    Lockstep R (Table.mapValues (Value.rename ρ)) (fun pairs => ∀ p ∈ pairs, realm.value p.2)
      (evalPairs (eval scope) table ps)
      (evalPairs (eval (ρ.scope scope)) (table.mapValues (Value.rename ρ)) ps) := by
  induction ps generalizing table with
  | nil => exact .pure rfl before
  | cons p ps ih =>
    rcases List.forall_mem_append.1 names with ⟨pair, others⟩
    rcases List.forall_mem_append.1 pair with ⟨first, second⟩
    refine (same scope p.1 inside first).bind fun k _ => ?_
    simp only [Value.key?_rename, Value.type_rename]
    cases k.key? with
    | none => exact .fail _
    | some key =>
      refine (same scope p.2 inside second).bind fun v whole => ?_
      rw [← Table.mapValues_insert]
      refine ih (fun q here => ?_) others
      rcases Table.mem_insert here with rfl | old
      · exact whole
      · exact before q old

include mirror

theorem Statement.step_lockstep {one : Statement} (names : ∀ x ∈ one.names, realm.name x) :
    Lockstep R (Option.map (Value.rename ρ)) (fun result => ∀ v ∈ result, realm.value v)
      (one.step eval scope) (one.step eval (ρ.scope scope)) := by
  have only {v : Value} (whole : realm.value v) : ∀ w ∈ some v, realm.value w :=
    fun _ same => Option.mem_some.1 same ▸ whole
  cases one with
  | bind x value =>
    rcases List.forall_mem_cons.1 names with ⟨named, others⟩
    refine (same scope value inside others).bind fun v whole => ?_
    rw [Value.isReturned_rename]
    split
    · exact .pure rfl (only whole)
    · have bound : Lockstep R id (fun _ => True) (Eval.bindName scope x v)
          (Eval.bindName (ρ.scope scope) x (v.rename ρ)) :=
        .change (fun _ => ⟨rfl, trivial⟩) fun related => mirror.bind related inside named whole
      exact bound.bind fun _ _ => .pure rfl nofun
  | leave value =>
    refine (same scope value inside names).bind fun v whole => ?_
    exact .pure rfl (only (whole))
  | expr value =>
    exact (same scope value inside names).bind fun v whole => .pure rfl (only whole)

theorem Statement.stepAll_lockstep {last : Option Value} {block : Block}
    (before : ∀ v ∈ last, realm.value v) (names : ∀ x ∈ blockNames block, realm.name x) :
    Lockstep R (Option.map (Value.rename ρ)) (fun result => ∀ v ∈ result, realm.value v)
      (stepAll eval scope last block)
      (stepAll eval (ρ.scope scope) (last.map (Value.rename ρ)) block) := by
  induction block generalizing last with
  | nil => exact .pure rfl before
  | cons one rest ih =>
    rcases List.forall_mem_append.1 names with ⟨first, others⟩
    refine (Statement.step_lockstep mirror same inside first).bind fun result whole => ?_
    have marked : (result.map (Value.rename ρ)).any Value.isReturned =
        result.any Value.isReturned := by
      cases result <;> simp
    rw [marked]
    split
    · exact .pure rfl whole
    · exact ih whole others

theorem Block.step_lockstep {block : Block} (names : ∀ x ∈ blockNames block, realm.name x) :
    Lockstep R (Value.rename ρ) realm.value (Block.step eval scope block)
      (Block.step eval (ρ.scope scope) block) := by
  have before : ∀ v ∈ (none : Option Value), realm.value v := nofun
  have statements := Statement.stepAll_lockstep mirror same inside before names
  refine statements.bind fun result whole => ?_
  cases result with
  | none => exact .pure rfl (Realm.value_of_plain rfl)
  | some v => exact .pure rfl (whole v rfl)

omit inside

/-- The scope of the call in one run is renamed to that of the call in the other one. -/
theorem Closure.step_lockstep {f : Closure} {args : List Value} (made : realm.scope f.scope)
    (names : ∀ x ∈ f.names, realm.name x) (given : ∀ v ∈ args, realm.value v) :
    Lockstep R (Value.rename ρ) realm.value (f.step eval args)
      ((f.rename ρ).step eval (args.map (Value.rename ρ))) := by
  have bound : ∀ x v, (bindParams [] f.params args).get? x = some v → realm.value v :=
    bindParams_all (Realm.value_of_plain rfl) nofun given
  have entered : Lockstep R ρ.scope realm.scope (Eval.change (·.addScope (f.frame args)))
      (Eval.change (·.addScope ((f.frame args).rename ρ))) :=
    .change mirror.newScope fun related => mirror.addScope related made bound
  have body := (List.forall_mem_append.1 names).2
  simp only [Closure.step, Closure.frame_rename]
  refine entered.bind fun scope inside => ?_
  refine (Block.step_lockstep mirror same inside body).bind fun v whole => ?_
  exact .pure (Value.unwrap_rename ρ v) (Realm.value_unwrap whole)

theorem Value.stepCall_lockstep {callee : Value} {args : List Value} (whole : realm.value callee)
    (given : ∀ v ∈ args, realm.value v) :
    Lockstep R (Value.rename ρ) realm.value (callee.stepCall eval args)
      ((callee.rename ρ).stepCall eval (args.map (Value.rename ρ))) := by
  cases callee with
  | function id f =>
    rcases Realm.value_function.1 whole with ⟨made, names⟩
    simp only [Value.rename, Value.stepCall]
    exact Closure.step_lockstep mirror same made names given
  | builtin b => exact b.call_lockstep mirror given
  | _ => exact .fail _

include inside

theorem Expr.step_lockstep {e : Expr} (names : ∀ x ∈ e.names, realm.name x) :
    Lockstep R (Value.rename ρ) realm.value (e.step eval scope) (e.step eval (ρ.scope scope)) := by
  cases e with
  | name x => exact evalName_lockstep mirror inside (names x List.mem_cons_self)
  | int n => exact .pure rfl (Realm.value_of_plain rfl)
  | str text => exact .pure rfl (Realm.value_of_plain rfl)
  | bool b => exact .pure rfl (Realm.value_of_plain rfl)
  | unary op a =>
    refine (same scope a inside names).bind fun v _ => .ofExcept (op.apply_rename v) fun w made => ?_
    exact Realm.value_of_plain (UnaryOp.apply_plain made)
  | binary op a b =>
    rcases List.forall_mem_append.1 names with ⟨left, right⟩
    refine (same scope a inside left).bind fun v _ => (same scope b inside right).bind fun w _ => ?_
    exact .ofExcept (op.apply_rename mirror.injective v w) fun u made =>
      Realm.value_of_plain (BinaryOp.apply_plain made)
  | cond test yes no =>
    cases no with
    | none =>
      rcases List.forall_mem_append.1 names with ⟨tested, branch⟩
      refine (same scope test inside tested).bind fun v _ => ?_
      rw [Value.isTruthy_rename]
      split
      · exact Block.step_lockstep mirror same inside branch
      · exact .pure rfl (Realm.value_of_plain rfl)
    | some no =>
      rcases List.forall_mem_append.1 names with ⟨either, other⟩
      rcases List.forall_mem_append.1 either with ⟨tested, branch⟩
      refine (same scope test inside tested).bind fun v _ => ?_
      rw [Value.isTruthy_rename]
      split
      · exact Block.step_lockstep mirror same inside branch
      · exact Block.step_lockstep mirror same inside other
  | fn params body => exact newFunction_lockstep mirror inside names
  | array es =>
    exact (evalAll_lockstep same inside names).bind fun vs wholes =>
      newArray_lockstep mirror wholes
  | index a i =>
    rcases List.forall_mem_append.1 names with ⟨left, right⟩
    refine (same scope a inside left).bind fun v whole => ?_
    refine (same scope i inside right).bind fun w _ => .ofExcept (v.elementAt_rename w) ?_
    intro u found
    rcases Value.elementAt_origin found with rfl | part
    · exact Realm.value_of_plain rfl
    · exact Realm.value_of_part whole part
  | hash ps =>
    have before : ∀ p ∈ ([] : Table Key Value), realm.value p.2 := List.forall_mem_nil _
    have pairs := evalPairs_lockstep same inside before names
    exact pairs.bind fun table wholes => newHash_lockstep mirror wholes
  | call f args =>
    rcases List.forall_mem_append.1 names with ⟨callee, given⟩
    refine (same scope f inside callee).bind fun v whole => ?_
    rw [Value.isCallable_rename, Value.type_rename]
    split
    · exact (evalAll_lockstep same inside given).bind fun vs wholes =>
        Value.stepCall_lockstep mirror same whole wholes
    · exact .fail _

end

/-! ## Every depth -/

section

variable {realm : Realm} {ρ : Renaming} {R : State → State → Prop}
  (mirror : realm.Mirror ρ R)

include mirror

theorem Expr.eval_inStep (n : Nat) : (Expr.eval n).InStep realm ρ R := by
  induction n with
  | zero => exact fun scope e _ _ s s' _ => .inl ⟨rfl, rfl⟩
  | succ n ih => exact fun scope e inside names => Expr.step_lockstep mirror ih inside names

/-- Statements of the realm do the same in the renamed scope. -/
theorem Statement.runAll_lockstep (n : Nat) {scope : ScopeId} (inside : realm.scope scope)
    {block : Block} (names : ∀ x ∈ blockNames block, realm.name x) :
    Lockstep R (Option.map (Value.rename ρ)) (fun result => ∀ v ∈ result, realm.value v)
      (runAll n scope block) (runAll n (ρ.scope scope) block) := by
  have before : ∀ v ∈ (none : Option Value), realm.value v := nofun
  exact Statement.stepAll_lockstep mirror (Expr.eval_inStep mirror n) inside before names

/-- From related states statements of the realm end in the scope and in the renamed one, or in neither,
and with outcomes that differ by the renaming. -/
theorem Ends.body_lockstep {s s' : State} (related : R s s') {scope : ScopeId}
    (inside : realm.scope scope) {block : Block} (names : ∀ x ∈ blockNames block, realm.name x) :
    ((∃ r t, Ends (.body scope block) s r t) ↔
      ∃ r t, Ends (.body (ρ.scope scope) block) s' r t) ∧
    ∀ r t r' t', Ends (.body scope block) s r t → Ends (.body (ρ.scope scope) block) s' r' t' →
      r' = r.map (Option.map (Value.rename ρ)) ∧ R t t' ∧
        ∀ result, r = .ok result → ∀ v ∈ result, realm.value v := by
  have lockstep (n : Nat) := Statement.runAll_lockstep mirror n inside names s s' related
  refine ⟨⟨?_, ?_⟩, ?_⟩
  · rintro ⟨r, t, n, ends⟩
    rcases lockstep n with ⟨cut, -⟩ | ⟨_, _, t', -, ends', -⟩
    · cases ends.symm.trans cut
    · exact ⟨_, t', n, ends'⟩
  · rintro ⟨r', t', n, ends'⟩
    rcases lockstep n with ⟨-, cut⟩ | ⟨r, t, _, ends, -⟩
    · cases ends'.symm.trans cut
    · exact ⟨r, t, n, ends⟩
  · intro r t r' t' ends ends'
    rcases ends.together ends' with ⟨n, ends, ends'⟩
    rcases lockstep n with ⟨cut, -⟩ | ⟨_, _, _, same, same', related', whole⟩
    · cases ends.symm.trans cut
    · cases ends.symm.trans same
      cases ends'.symm.trans same'
      exact ⟨rfl, related', whole⟩

/-- A call of the renamed callee with the renamed arguments does the same. -/
theorem Value.call_lockstep (n : Nat) {callee : Value} {args : List Value}
    (whole : realm.value callee) (given : ∀ v ∈ args, realm.value v) :
    Lockstep R (Value.rename ρ) realm.value (callee.call n args)
      ((callee.rename ρ).call n (args.map (Value.rename ρ))) :=
  Value.stepCall_lockstep mirror (Expr.eval_inStep mirror n) whole given

end

end Script
