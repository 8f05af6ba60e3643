import Script.Proofs.Eval.Task
import Script.Proofs.Marker.Builtin

/-!
# Where a return marker shows

A marked value may stand wherever an expression may, since the branches of a condition are blocks.
`Leaks task s` lists the places where it is taken for an ordinary value and shows: as an operand, as
something called or indexed, as an argument, element, key or value, or behind a second marker where a
body has taken off the first. In other places it is dropped: by a logical negation, as a test, as one
side of an equality, or as an argument for which there is no parameter.

`Hidden task s` says that no marker shows while the task is carried out. The main lemma is
`Safe.hidden`: if nothing leaks in a task and in all it comes to, then the marker is hidden there.
-/

namespace Script

/-! ## Leaks -/

/-- The task takes a marked value for an ordinary one, and it shows. -/
inductive Leaks : Task → State → Prop
  | negated {scope a s v t} : Ends (.expr scope a) s (.ok v) t → v.isReturned = true →
      Leaks (.expr scope (.unary .negate a)) s
  | operand {scope op a b s v t w u} : op ≠ .equal → op ≠ .notEqual →
      Ends (.expr scope a) s (.ok v) t → Ends (.expr scope b) t (.ok w) u →
      v.isReturned = true ∨ w.isReturned = true → Leaks (.expr scope (.binary op a b)) s
  | element {scope es s vs t v} : Ends (.all scope es) s (.ok vs) t → v ∈ vs →
      v.isReturned = true → Leaks (.expr scope (.array es)) s
  | indexed {scope a i s v t w u} : Ends (.expr scope a) s (.ok v) t →
      Ends (.expr scope i) t (.ok w) u → v.isReturned = true ∨ v.type = .hash ∧ w.isReturned = true →
      Leaks (.expr scope (.index a i)) s
  | key {scope table key value ps s v t} : Ends (.expr scope key) s (.ok v) t →
      v.isReturned = true → Leaks (.pairs scope table ((key, value) :: ps)) s
  /-- A pair that another one replaced does not count. -/
  | value {scope ps s table t p} : Ends (.pairs scope [] ps) s (.ok table) t → p ∈ table →
      p.2.isReturned = true → Leaks (.expr scope (.hash ps)) s
  | callee {scope f args s v t} : Ends (.expr scope f) s (.ok v) t → v.isReturned = true →
      Leaks (.expr scope (.call f args)) s
  | argument {scope f args s b t vs u} : Ends (.expr scope f) s (.ok (.builtin b)) t →
      Ends (.all scope args) t (.ok vs) u → b.exposes vs = true →
      Leaks (.expr scope (.call f args)) s
  | parameter {scope f args s id closure t vs u x v} :
      Ends (.expr scope f) s (.ok (.function id closure)) t → Ends (.all scope args) t (.ok vs) u →
      (closure.frame vs).bindings.get? x = some v → v.isReturned = true →
      Leaks (.expr scope (.call f args)) s
  /-- Only one marker is taken off. -/
  | body {scope block s v t} : Ends (.body scope block) s (.ok (some (.returned (.returned v)))) t →
      Leaks (.body scope block) s

/-- Nothing leaks in the task, nor in what it comes to. -/
def Safe (task : Task) (s : State) : Prop :=
  ∀ task' s', Reaches task s task' s' → ¬ Leaks task' s'

theorem Safe.not_leaks {task : Task} {s : State} (safe : Safe task s) : ¬ Leaks task s :=
  safe task s (.refl task s)

/-- What would leak if it were so is not so. -/
theorem Safe.eq_false {task : Task} {s : State} {leaking : Bool} (safe : Safe task s)
    (leak : leaking = true → Leaks task s) : leaking = false :=
  Bool.eq_false_iff.2 fun so => safe.not_leaks (leak so)

theorem Safe.part {a b : Task} {s t : State} (safe : Safe a s) (part : Part a s b t) : Safe b t :=
  fun c u reached => safe c u (.step part reached)

/-! ## Hidden markers -/

def Expr.isCall : Expr → Bool
  | .call .. => true
  | _ => false

/-- What a task may give. A marker may stand around the value of an expression, but not around that of
a call, and a body may give one marker, which is taken off. -/
def Task.Passes : (task : Task) → task.Result → Prop
  | .expr _ e, v => v.tidy = true ∧ (e.isCall = true → v.free = true)
  | .all .., vs => ∀ v ∈ vs, v.tidy = true
  | .pairs .., table => ∀ p ∈ table, p.2.tidy = true
  | .statement .., result | .statements .., result => ∀ v ∈ result, v.tidy = true
  | .body .., result => ∀ v ∈ result, v.unwrap.free = true

/-- What a task may have at hand when it begins. -/
def Task.Proper : Task → Prop
  | .pairs _ table _ => ∀ p ∈ table, p.2.tidy = true
  | .statements _ last _ => ∀ v ∈ last, v.tidy = true
  | _ => True

theorem Task.passes_of_free {scope : ScopeId} {e : Expr} {v : Value} (free : v.free = true) :
    (Task.expr scope e).Passes v :=
  ⟨Value.tidy_of_free free, fun _ => free⟩

/-- No binding holds a marker when the task begins and when it ends, and no marker shows in what it
gives. -/
structure Hidden (task : Task) (s : State) : Prop where
  proper : task.Proper
  start : s.Clean
  finish : ∀ r t, Ends task s r t → t.Clean ∧ Unmarked task.Passes r

namespace Eval

variable {α β : Type} {s : State} {passes : α → Prop}

/-- If the evaluation ends, then in a clean state and without showing a marker. -/
def Hides (x : Eval α) (s : State) (passes : α → Prop) : Prop :=
  x.After s fun r t => t.Clean ∧ Unmarked passes r

theorem Hides.pure {a : α} (clean : s.Clean) (pass : passes a) :
    (Pure.pure a : Eval α).Hides s passes :=
  After.pure ⟨clean, pass⟩

theorem Hides.fail {e : Fault} (clean : s.Clean) (silent : e.mentions .returned = false) :
    (Eval.fail e : Eval α).Hides s passes :=
  After.fail ⟨clean, silent⟩

theorem Hides.ofExcept {x : Except Fault α} (clean : s.Clean) (unmarked : Unmarked passes x) :
    (Eval.ofExcept x).Hides s passes :=
  After.ofExcept ⟨clean, unmarked⟩

theorem Hides.change {f : State → α × State} (clean : (f s).2.Clean) (pass : passes (f s).1) :
    (Eval.change f).Hides s passes :=
  After.change ⟨clean, pass⟩

theorem Hides.mono {x : Eval α} {passes' : α → Prop} (h : x.Hides s passes)
    (weaker : ∀ a, passes a → passes' a) : x.Hides s passes' := by
  intro r t ends
  rcases h r t ends with ⟨clean, unmarked⟩
  cases r with
  | error e => exact ⟨clean, unmarked⟩
  | ok a => exact ⟨clean, weaker a unmarked⟩

/-- A fault shows no more at the end than where it came up. -/
theorem Hides.seq {x : Eval α} {f : α → Eval β} {passes' : β → Prop} (first : x.Hides s passes)
    (next : ∀ a t, x s = some (.ok a, t) → t.Clean → passes a → (f a).Hides t passes') :
    (x >>= f).Hides s passes' := by
  refine After.seq (fun a t ends => ?_) fun e t ends => first (.error e) t ends
  rcases first (.ok a) t ends with ⟨clean, pass⟩
  exact next a t ends clean pass

end Eval

/-- To depth `n` no marker shows at the end of the task, if nothing leaks on the way. -/
def HiddenTo (n : Nat) (task : Task) : Prop :=
  ∀ s, task.Proper → s.Clean → Safe task s → (task.eval n).Hides s task.Passes

/-! ## The scope of a call -/

/-- The scope of a call is as clean as the arguments that its parameters take. -/
theorem State.Clean.frame {s : State} {closure : Closure} {vs : List Value} (clean : s.Clean)
    (tidy : ∀ v ∈ vs, v.tidy = true)
    (unmarked : ∀ x v, (closure.frame vs).bindings.get? x = some v → v.isReturned = false) :
    (s.addScope (closure.frame vs)).2.Clean := by
  have bound : ∀ x v, (closure.frame vs).bindings.get? x = some v → v.tidy = true :=
    bindParams_all (P := fun v => v.tidy = true) rfl nofun tidy
  refine clean.addScope fun x v there => ?_
  exact Value.free_of_tidy (bound x v there) (unmarked x v there)

/-! ## Lists and statements -/

section

variable {n : Nat} (expressions : ∀ scope e, HiddenTo n (.expr scope e))

include expressions

theorem hiddenTo_all (scope : ScopeId) (es : List Expr) : HiddenTo n (.all scope es) := by
  induction es with
  | nil =>
    intro s _ clean _
    exact .pure clean (fun _ none => absurd none List.not_mem_nil)
  | cons e es ih =>
    intro s _ clean safe
    have first := expressions scope e s trivial clean (safe.part .first)
    refine first.seq fun v t ends clean' pass => ?_
    have others := ih t trivial clean' (safe.part (.others ⟨n, ends⟩))
    refine others.seq fun vs u _ clean'' passes => ?_
    exact .pure clean'' (List.forall_mem_cons.2 ⟨pass.1, passes⟩)

theorem hiddenTo_pairs (scope : ScopeId) (table : Table Key Value) (ps : List (Expr × Expr)) :
    HiddenTo n (.pairs scope table ps) := by
  induction ps generalizing table with
  | nil =>
    intro s proper clean _
    exact .pure clean proper
  | cons p ps ih =>
    rcases p with ⟨key, value⟩
    intro s proper clean safe
    have first := expressions scope key s trivial clean (safe.part .key)
    refine first.seq fun v t ends clean' _ => ?_
    rcases keyed : v.key? with _ | k
    -- The fault names the type of what cannot be a key, so this must not be marked.
    · have plain : v.isReturned = false := safe.eq_false (.key ⟨n, ends⟩)
      exact .fail clean' (Fault.unusableKey_silent_iff.2 plain)
    · have second := expressions scope value t trivial clean' (safe.part (.value ⟨n, ends⟩ keyed))
      refine second.seq fun w u ends' clean'' pass => ?_
      refine ih (table.insert k w) u (fun p here => ?_) clean''
        (safe.part (.morePairs ⟨n, ends⟩ keyed ⟨n, ends'⟩))
      -- The table gets the new value and keeps values that were tidy.
      rcases Table.mem_insert here with rfl | before
      · exact pass.1
      · exact proper p before

/-- A marked value is not bound, so a binding stays free. -/
theorem hiddenTo_statement (scope : ScopeId) (one : Statement) :
    HiddenTo n (.statement scope one) := by
  intro s _ clean safe
  have value := expressions scope one.value s trivial clean (safe.part .expr)
  cases one with
  | bind x e =>
    refine value.seq fun v t _ clean' pass => ?_
    by_cases marked : v.isReturned = true
    · rw [if_pos marked]
      exact .pure clean' (fun _ same => Option.mem_some.1 same ▸ pass.1)
    · rw [if_neg marked]
      have free := Value.free_of_tidy pass.1 (Bool.eq_false_iff.2 marked)
      have bound : (Eval.bindName scope x v).Hides t fun _ => True :=
        .change (clean'.bind scope x free) trivial
      refine bound.seq fun _ u _ clean'' _ => ?_
      exact .pure clean'' nofun
  | leave e =>
    refine value.seq fun v t _ clean' pass => ?_
    exact .pure clean' (fun _ same => Option.mem_some.1 same ▸ pass.1)
  | expr e =>
    refine value.seq fun v t _ clean' pass => ?_
    exact .pure clean' (fun _ same => Option.mem_some.1 same ▸ pass.1)

theorem hiddenTo_statements (scope : ScopeId) (last : Option Value) (block : Block) :
    HiddenTo n (.statements scope last block) := by
  induction block generalizing last with
  | nil =>
    intro s proper clean _
    exact .pure clean proper
  | cons one rest ih =>
    intro s _ clean safe
    have first := hiddenTo_statement expressions scope one s trivial clean (safe.part .statement)
    refine first.seq fun result t ends clean' pass => ?_
    by_cases marked : result.any Value.isReturned = true
    · rw [if_pos marked]
      exact .pure clean' pass
    · rw [if_neg marked]
      have unmarked := Bool.eq_false_iff.2 marked
      exact ih result t pass clean' (safe.part (.statements ⟨n, ends⟩ unmarked))

theorem hiddenTo_body (scope : ScopeId) (block : Block) : HiddenTo n (.body scope block) := by
  intro s _ clean safe
  have whole := hiddenTo_statements expressions scope none block s nofun clean (safe.part .body)
  intro r t ends
  rcases whole r t ends with ⟨clean', pass⟩
  refine ⟨clean', ?_⟩
  cases r with
  | error e => exact pass
  | ok result =>
    rintro v rfl
    -- One marker is taken off, so there must not be a second one.
    refine Value.free_unwrap (pass v rfl) ?_
    rintro w rfl
    exact safe.not_leaks (.body ⟨n, ends⟩)

/-! ## Calls -/

theorem hides_block {scope : ScopeId} {block : Block} {s : State} (clean : s.Clean)
    (safe : Safe (.statements scope none block) s) :
    (block.step (Expr.eval n) scope).Hides s fun v => v.tidy = true := by
  have run := hiddenTo_statements expressions scope none block s nofun clean safe
  refine run.seq fun result t _ clean' pass => ?_
  cases result with
  | none => exact .pure clean' rfl
  | some v => exact .pure clean' (pass v rfl)

theorem hides_closure {closure : Closure} {vs : List Value} {s : State}
    (start : (s.addScope (closure.frame vs)).2.Clean)
    (safe : Safe (.body s.scopes.size closure.body) (s.addScope (closure.frame vs)).2) :
    (closure.step (Expr.eval n) vs).Hides s fun v => v.free = true := by
  have run := hiddenTo_body expressions s.scopes.size closure.body _ trivial start safe
  have value : (closure.body.step (Expr.eval n) s.scopes.size).Hides (s.addScope (closure.frame vs)).2
      fun v => v.unwrap.free = true := by
    refine run.seq fun result t _ clean pass => ?_
    cases result with
    | none => exact .pure clean rfl
    | some v => exact .pure clean (pass v rfl)
  -- The scope of the call is made, and then the body runs in it.
  have whole : ((closure.body.step (Expr.eval n) s.scopes.size) >>= fun v => pure v.unwrap).Hides
      (s.addScope (closure.frame vs)).2 fun v => v.free = true :=
    value.seq fun v t _ clean pass => .pure clean pass
  exact whole

theorem hides_call {scope : ScopeId} {f : Expr} {args : List Expr} {s : State} (clean : s.Clean)
    (safe : Safe (.expr scope (.call f args)) s) :
    ((Expr.call f args).step (Expr.eval n) scope).Hides s fun v => v.free = true := by
  -- First the callee, then the arguments if it can be called, then the call itself.
  have callee := expressions scope f s trivial clean (safe.part .callee)
  refine callee.seq fun v t ends clean' _ => ?_
  by_cases callable : v.isCallable = true
  · rw [if_pos callable]
    have given := hiddenTo_all expressions scope args t trivial clean'
      (safe.part (.arguments ⟨n, ends⟩ callable))
    refine given.seq fun vs u ends' clean'' tidy => ?_
    cases v with
    | function id closure =>
      have start := clean''.frame tidy fun x v there =>
        safe.eq_false (.parameter ⟨n, ends⟩ ⟨n, ends'⟩ there)
      exact hides_closure expressions start (safe.part (.call ⟨n, ends⟩ ⟨n, ends'⟩))
    | builtin b =>
      have quiet : b.exposes vs = false := safe.eq_false (.argument ⟨n, ends⟩ ⟨n, ends'⟩)
      rcases b.shows tidy u with ⟨r, w, called, same, unmarked⟩
      intro r' w' called'
      cases called.symm.trans called'
      exact ⟨clean''.of_scopes same, unmarked.2 quiet⟩
    | _ => cases callable
  · rw [if_neg callable]
    -- The fault names the type of what cannot be called, so this must not be marked.
    have plain : v.isReturned = false := safe.eq_false (.callee ⟨n, ends⟩)
    exact .fail clean' (Fault.notCallable_silent_iff.2 plain)

/-! ## Expressions -/

omit expressions in
theorem hides_name {scope : ScopeId} {x : String} {s : State} (clean : s.Clean) :
    (evalName scope x).Hides s fun v => v.free = true := by
  have look : (Eval.look (·.lookup x scope)).Hides s fun found => ∀ v, found = some v → v.free = true :=
    .look ⟨clean, fun v bound => clean.lookup bound⟩
  refine look.seq fun found t _ clean' free => ?_
  cases found with
  | some v => exact .pure clean' (free v rfl)
  | none =>
    cases Builtin.ofName? x with
    | some b => exact .pure clean' rfl
    | none => exact .fail clean' rfl

/-- One step deeper: if no marker shows in the parts, none shows in the whole. -/
theorem hiddenTo_succ (scope : ScopeId) (e : Expr) : HiddenTo (n + 1) (.expr scope e) := by
  intro s _ clean safe
  have weaker : ∀ v : Value, v.free = true → (Task.expr scope e).Passes v :=
    fun v => Task.passes_of_free
  cases e with
  | name x => exact (hides_name clean).mono weaker
  | int i => exact .pure clean (weaker _ rfl)
  | str text => exact .pure clean (weaker _ rfl)
  | bool b => exact .pure clean (weaker _ rfl)
  | unary op a =>
    have operand := expressions scope a s trivial clean (safe.part .operand)
    refine operand.seq fun v t ends clean' _ => ?_
    refine .ofExcept clean' ((op.apply_unmarked_iff weaker v).2 ?_)
    rintro rfl
    exact safe.eq_false (.negated ⟨n, ends⟩)
  | binary op a b =>
    have left := expressions scope a s trivial clean (safe.part .left)
    refine left.seq fun v t ends clean' _ => ?_
    have right := expressions scope b t trivial clean' (safe.part (.right ⟨n, ends⟩))
    refine right.seq fun w u ends' clean'' _ => ?_
    refine .ofExcept clean'' ((op.apply_unmarked_iff weaker v w).2 fun unequal different => ?_)
    have leak : v.isReturned = true ∨ w.isReturned = true → Leaks (.expr scope (.binary op a b)) s :=
      .operand unequal different ⟨n, ends⟩ ⟨n, ends'⟩
    exact ⟨safe.eq_false (leak ∘ .inl), safe.eq_false (leak ∘ .inr)⟩
  | cond test yes no =>
    have tested := expressions scope test s trivial clean (safe.part .test)
    refine tested.seq fun v t ends clean' _ => ?_
    by_cases true : v.isTruthy = true
    · rw [if_pos true]
      exact (hides_block expressions clean' (safe.part (.yes ⟨n, ends⟩ true))).mono
        fun w tidy => ⟨tidy, nofun⟩
    · rw [if_neg true]
      cases no with
      | none => exact .pure clean' (weaker _ rfl)
      | some no =>
        have false := Bool.eq_false_iff.2 true
        exact (hides_block expressions clean' (safe.part (.no ⟨n, ends⟩ false))).mono
          fun w tidy => ⟨tidy, nofun⟩
  | fn params body =>
    have made : (Eval.newFunction ⟨params, body, scope⟩).Hides s fun v => v.free = true :=
      .change (clean.of_scopes rfl) rfl
    exact made.mono weaker
  | array es =>
    -- What is held in an array or a hash has to be free, not only tidy.
    have elements := hiddenTo_all expressions scope es s trivial clean (safe.part .elements)
    refine elements.seq fun vs t ends clean' tidy => ?_
    refine .change (clean'.of_scopes rfl) (weaker _ (freeAll_iff.2 fun v here => ?_))
    exact Value.free_of_tidy (tidy v here) (safe.eq_false (.element ⟨n, ends⟩ here))
  | index a i =>
    have collection := expressions scope a s trivial clean (safe.part .collection)
    refine collection.seq fun v t ends clean' pass => ?_
    have position := expressions scope i t trivial clean' (safe.part (.position ⟨n, ends⟩))
    refine position.seq fun w u ends' clean'' _ => ?_
    refine .ofExcept clean'' ((Value.elementAt_unmarked_iff weaker pass.1 w).2 ?_)
    have leak : v.isReturned = true ∨ v.type = .hash ∧ w.isReturned = true →
        Leaks (.expr scope (.index a i)) s :=
      .indexed ⟨n, ends⟩ ⟨n, ends'⟩
    exact ⟨safe.eq_false (leak ∘ .inl),
      fun hash => safe.eq_false fun marked => leak (.inr ⟨hash, marked⟩)⟩
  | hash ps =>
    have pairs := hiddenTo_pairs expressions scope [] ps s nofun clean (safe.part .hash)
    refine pairs.seq fun table t ends clean' tidy => ?_
    refine .change (clean'.of_scopes rfl) (weaker _ (freePairs_iff.2 fun p here => ?_))
    exact Value.free_of_tidy (tidy p here) (safe.eq_false (.value ⟨n, ends⟩ here))
  | call f args => exact (hides_call expressions clean safe).mono weaker

end

/-! ## Every depth -/

theorem hiddenTo_expr (n : Nat) : ∀ scope e, HiddenTo n (.expr scope e) := by
  induction n with
  | zero =>
    intro scope e s _ _ _ r t ends
    cases ends
  | succ n ih => exact hiddenTo_succ ih

theorem hiddenTo (n : Nat) (task : Task) : HiddenTo n task := by
  have expressions := hiddenTo_expr n
  cases task with
  | expr scope e => exact expressions scope e
  | all scope es => exact hiddenTo_all expressions scope es
  | pairs scope table ps => exact hiddenTo_pairs expressions scope table ps
  | statement scope one => exact hiddenTo_statement expressions scope one
  | statements scope last block => exact hiddenTo_statements expressions scope last block
  | body scope block => exact hiddenTo_body expressions scope block

/-- The marker is hidden in a task in which nothing leaks. -/
theorem Safe.hidden {task : Task} {s : State} (safe : Safe task s) (proper : task.Proper)
    (clean : s.Clean) : Hidden task s where
  proper := proper
  start := clean
  finish r t ends := by
    rcases ends with ⟨n, ends⟩
    exact hiddenTo n task s proper clean safe r t ends

/-- What the parts before it leave is fit for the next part to begin with. -/
theorem Part.begins {a b : Task} {s t : State} (part : Part a s b t) (proper : a.Proper)
    (clean : s.Clean) (safe : Safe a s) : b.Proper ∧ t.Clean := by
  -- Nothing leaks in the parts before, so their outcomes are as they should be.
  have after : ∀ {c : Task} {t : State} {x : c.Result} {u : State}, Part a s c t → c.Proper →
      t.Clean → Ends c t (.ok x) u → u.Clean ∧ c.Passes x :=
    fun part proper clean ends => ((safe.part part).hidden proper clean).finish _ _ ends
  cases part with
  | operand | left | test | collection | callee | first | key | expr | elements | statement =>
    exact ⟨trivial, clean⟩
  | hash | body => exact ⟨nofun, clean⟩
  | right ends => exact ⟨trivial, (after .left trivial clean ends).1⟩
  | yes ends _ | no ends _ => exact ⟨nofun, (after .test trivial clean ends).1⟩
  | position ends => exact ⟨trivial, (after .collection trivial clean ends).1⟩
  | arguments ends _ => exact ⟨trivial, (after .callee trivial clean ends).1⟩
  | call ends ends' =>
    have called := (after .callee trivial clean ends).1
    rcases after (.arguments ends rfl) trivial called ends' with ⟨clean', tidy⟩
    exact ⟨trivial, clean'.frame tidy fun x v there =>
      safe.eq_false (.parameter ends ends' there)⟩
  | others ends => exact ⟨trivial, (after .first trivial clean ends).1⟩
  | value ends _ => exact ⟨trivial, (after .key trivial clean ends).1⟩
  | morePairs ends keyed ends' =>
    have keyClean := (after .key trivial clean ends).1
    rcases after (.value ends keyed) trivial keyClean ends' with ⟨clean', pass⟩
    refine ⟨fun p here => ?_, clean'⟩
    rcases Table.mem_insert here with rfl | before
    · exact pass.1
    · exact proper p before
  | statements ends _ =>
    rcases after .statement trivial clean ends with ⟨clean', pass⟩
    exact ⟨pass, clean'⟩

theorem Reaches.hidden {a b : Task} {s t : State} (reached : Reaches a s b t) (proper : a.Proper)
    (clean : s.Clean) (safe : Safe a s) : Hidden b t := by
  induction reached with
  | refl => exact safe.hidden proper clean
  | step part _ ih =>
    rcases part.begins proper clean safe with ⟨proper', clean'⟩
    exact ih proper' clean' (safe.part part)

end Script
