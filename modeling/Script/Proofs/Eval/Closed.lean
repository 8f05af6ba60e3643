import Script.Proofs.Eval.Bound
import Script.Proofs.Eval.Origin
import Script.Proofs.Eval.Task

/-!
# States without dangling references

A state is closed if the scopes it has refer only to scopes it has, and everything bound in them only
to scopes it has and to objects it has made. Evaluation in a scope of a closed state leaves a closed
state, to which the value it gives belongs; nothing is ever taken away, so what belonged to the state
before still does. Hence every state of a session is closed.
-/

namespace Script

/-! ## What a value refers to -/

namespace Value

mutual

/-- All scopes that the value refers to lie below `scopes`, and all objects below `objects`. -/
def Within (scopes : ScopeId) (objects : ObjectId) : Value → Prop
  | array id elements => id < objects ∧ WithinAll scopes objects elements
  | hash id pairs => id < objects ∧ WithinPairs scopes objects pairs
  | function id closure => id < objects ∧ closure.scope < scopes
  | returned v => Within scopes objects v
  | _ => True

def WithinAll (scopes : ScopeId) (objects : ObjectId) : List Value → Prop
  | [] => True
  | v :: vs => Within scopes objects v ∧ WithinAll scopes objects vs

def WithinPairs (scopes : ScopeId) (objects : ObjectId) : Table Key Value → Prop
  | [] => True
  | (_, v) :: rest => Within scopes objects v ∧ WithinPairs scopes objects rest

end

/-- Everything that the value refers to is there in the state. -/
def In (v : Value) (s : State) : Prop :=
  v.Within s.scopes.size s.fresh

section

variable {scopes : ScopeId} {objects : ObjectId}

theorem withinAll_iff {vs : List Value} :
    WithinAll scopes objects vs ↔ ∀ v ∈ vs, v.Within scopes objects := by
  induction vs with
  | nil => simp [WithinAll]
  | cons v vs ih => simp [WithinAll, ih]

theorem withinPairs_iff {pairs : Table Key Value} :
    WithinPairs scopes objects pairs ↔ ∀ p ∈ pairs, p.2.Within scopes objects := by
  induction pairs with
  | nil => simp [WithinPairs]
  | cons p ps ih => simp [WithinPairs, ih]

theorem within_of_plain {v : Value} (h : v.isPlain = true) : v.Within scopes objects := by
  cases v with
  | array | hash | function | returned => cases h
  | _ => trivial

theorem within_of_part {v u : Value} (within : v.Within scopes objects) (h : u ∈ v.parts) :
    u.Within scopes objects := by
  cases v with
  | array id vs => exact withinAll_iff.1 within.2 u h
  | hash id ps =>
    rcases List.mem_map.1 h with ⟨p, here, rfl⟩
    exact withinPairs_iff.1 within.2 p here
  | _ => cases h

theorem within_unwrap {v : Value} (within : v.Within scopes objects) :
    v.unwrap.Within scopes objects := by
  cases v <;> exact within

end

section

variable {scopes scopes' : ScopeId} {objects objects' : ObjectId}

mutual

theorem within_mono (le : scopes ≤ scopes') (le' : objects ≤ objects') :
    (v : Value) → v.Within scopes objects → v.Within scopes' objects'
  | array _ elements, h => ⟨Nat.lt_of_lt_of_le h.1 le', withinAll_mono le le' elements h.2⟩
  | hash _ pairs, h => ⟨Nat.lt_of_lt_of_le h.1 le', withinPairs_mono le le' pairs h.2⟩
  | function .., h => ⟨Nat.lt_of_lt_of_le h.1 le', Nat.lt_of_lt_of_le h.2 le⟩
  | returned v, h => within_mono le le' v h
  | int _, _ | bool _, _ | str _, _ | builtin _, _ | null, _ | error _, _ => trivial

theorem withinAll_mono (le : scopes ≤ scopes') (le' : objects ≤ objects') :
    (vs : List Value) → WithinAll scopes objects vs → WithinAll scopes' objects' vs
  | [], _ => trivial
  | v :: vs, h => ⟨within_mono le le' v h.1, withinAll_mono le le' vs h.2⟩

theorem withinPairs_mono (le : scopes ≤ scopes') (le' : objects ≤ objects') :
    (pairs : Table Key Value) → WithinPairs scopes objects pairs →
      WithinPairs scopes' objects' pairs
  | [], _ => trivial
  | (_, v) :: rest, h => ⟨within_mono le le' v h.1, withinPairs_mono le le' rest h.2⟩

end

end

end Value

/-! ## Closed states -/

namespace State

/-- Nothing in the state refers to a scope or an object that is not there. -/
structure Closed (s : State) : Prop where
  links : ∀ (i : ScopeId) (here : Scope), s.scopes[i]? = some here →
    ∀ outer, here.outer = some outer → outer < s.scopes.size
  bound : s.Bound (·.In s)

/-- The second state has all scopes and objects that the first one has. -/
structure Grows (s t : State) : Prop where
  scopes : s.scopes.size ≤ t.scopes.size
  fresh : s.fresh ≤ t.fresh

variable {s t u : State}

theorem Grows.refl (s : State) : s.Grows s :=
  ⟨Nat.le_refl _, Nat.le_refl _⟩

theorem Grows.trans (first : s.Grows t) (second : t.Grows u) : s.Grows u :=
  ⟨Nat.le_trans first.scopes second.scopes, Nat.le_trans first.fresh second.fresh⟩

theorem Grows.useFresh (s : State) : s.Grows s.useFresh :=
  ⟨Nat.le_refl _, Nat.le_succ _⟩

theorem Grows.addScope (s : State) (here : Scope) : s.Grows (s.addScope here).2 :=
  ⟨by simp [State.addScope], Nat.le_refl _⟩

theorem Grows.bind (s : State) (scope : ScopeId) (x : String) (v : Value) :
    s.Grows (s.bind scope x v) :=
  ⟨by simp [State.bind], Nat.le_refl _⟩

/-- What belongs to a state belongs to every later one. -/
theorem Grows.keeps (grows : s.Grows t) {v : Value} (h : v.In s) : v.In t :=
  Value.within_mono grows.scopes grows.fresh v h

namespace Closed

theorem initial : State.initial.Closed where
  links := by
    intro i here there outer link
    cases i with
    | zero =>
      cases there
      cases link
    | succ i => cases there
  bound := .initial

/-- The same scopes in a state with more objects. -/
theorem of_scopes (closed : s.Closed) (same : t.scopes = s.scopes) (grows : s.Grows t) :
    t.Closed where
  links := by
    rw [same]
    exact closed.links
  bound := (closed.bound.of_scopes same).mono fun _ => grows.keeps

theorem bind (closed : s.Closed) (scope : ScopeId) (x : String) {v : Value} (new : v.In s) :
    (s.bind scope x v).Closed where
  links := by
    intro i here there outer link
    simp only [State.bind, Array.getElem?_modify, Array.size_modify] at there ⊢
    split at there
    · rcases Option.map_eq_some_iff.1 there with ⟨before, was, rfl⟩
      exact closed.links _ before was outer link
    · exact closed.links i here there outer link
  bound := (closed.bound.bind scope x new).mono fun _ => (Grows.bind s scope x v).keeps

/-- The new scope of a call lies in the scope that the function was made in. -/
theorem frame (closed : s.Closed) {f : Closure} {args : List Value} (made : f.scope < s.scopes.size)
    (given : ∀ v ∈ args, v.In s) : (s.addScope (f.frame args)).2.Closed where
  links := by
    intro i here there outer link
    simp only [State.addScope, Array.getElem?_push, Array.size_push] at there ⊢
    split at there
    · cases there
      cases link
      exact Nat.lt_succ_of_lt made
    · exact Nat.lt_succ_of_lt (closed.links i here there outer link)
  bound := (closed.bound.frame trivial given).mono fun _ => (Grows.addScope s (f.frame args)).keeps

end Closed
end State

/-! ## Evaluations that stay closed -/

namespace Eval

variable {α β : Type} {s : State} {ok : State → α → Prop} {ok' : State → β → Prop}

/-- If the evaluation ends, then in a closed state that has grown, and its value is as `ok` wants it
there unless it ends with a fault. -/
def StaysClosed (x : Eval α) (s : State) (ok : State → α → Prop) : Prop :=
  x.After s fun r t => t.Closed ∧ s.Grows t ∧ ∀ a, r = .ok a → ok t a

namespace StaysClosed

theorem pure {a : α} (closed : s.Closed) (fine : ok s a) :
    (Pure.pure a : Eval α).StaysClosed s ok :=
  After.pure ⟨closed, .refl s, fun _ same => Except.ok.inj same ▸ fine⟩

theorem fail {e : Fault} (closed : s.Closed) : (Eval.fail e : Eval α).StaysClosed s ok :=
  After.fail ⟨closed, .refl s, nofun⟩

theorem ofExcept {x : Except Fault α} (closed : s.Closed) (fine : ∀ a, x = .ok a → ok s a) :
    (Eval.ofExcept x).StaysClosed s ok :=
  After.ofExcept ⟨closed, .refl s, fine⟩

theorem look {f : State → α} (closed : s.Closed) (fine : ok s (f s)) :
    (Eval.look f).StaysClosed s ok :=
  After.look ⟨closed, .refl s, fun _ same => Except.ok.inj same ▸ fine⟩

theorem change {f : State → α × State} (closed : (f s).2.Closed) (grows : s.Grows (f s).2)
    (fine : ok (f s).2 (f s).1) : (Eval.change f).StaysClosed s ok :=
  After.change ⟨closed, grows, fun _ same => Except.ok.inj same ▸ fine⟩

/-- What goes on may use what it knew before, since the state has only grown. -/
theorem seq {x : Eval α} {f : α → Eval β} (first : x.StaysClosed s ok)
    (next : ∀ a t, t.Closed → s.Grows t → ok t a → (f a).StaysClosed t ok') :
    (x >>= f).StaysClosed s ok' := by
  refine After.seq (fun a t ends => ?_) fun e t ends => ?_
  · rcases first (.ok a) t ends with ⟨closed, grows, fine⟩
    exact (next a t closed grows (fine a rfl)).mono fun _ _ ⟨closed', grows', fine'⟩ =>
      ⟨closed', grows.trans grows', fine'⟩
  · rcases first (.error e) t ends with ⟨closed, grows, -⟩
    exact ⟨closed, grows, nofun⟩

end StaysClosed

theorem newArray_closed {vs : List Value} (closed : s.Closed) (elements : ∀ v ∈ vs, v.In s) :
    (newArray vs).StaysClosed s fun t v => v.In t :=
  .change (closed.of_scopes rfl (.useFresh s)) (.useFresh s)
    ⟨Nat.lt_succ_self _, Value.withinAll_iff.2 fun v here =>
      (State.Grows.useFresh s).keeps (elements v here)⟩

theorem newHash_closed {pairs : Table Key Value} (closed : s.Closed)
    (values : ∀ p ∈ pairs, p.2.In s) : (newHash pairs).StaysClosed s fun t v => v.In t :=
  .change (closed.of_scopes rfl (.useFresh s)) (.useFresh s)
    ⟨Nat.lt_succ_self _, Value.withinPairs_iff.2 fun p here =>
      (State.Grows.useFresh s).keeps (values p here)⟩

theorem newFunction_closed {f : Closure} (closed : s.Closed) (made : f.scope < s.scopes.size) :
    (newFunction f).StaysClosed s fun t v => v.In t :=
  .change (closed.of_scopes rfl (.useFresh s)) (.useFresh s) ⟨Nat.lt_succ_self _, made⟩

end Eval

theorem Builtin.call_closed {s : State} (b : Builtin) {args : List Value} (closed : s.Closed)
    (given : ∀ v ∈ args, v.In s) : (b.call args).StaysClosed s fun t v => v.In t := by
  have inside {v : Value} (h : Given args v) : v.In s := by
    rcases h with here | ⟨a, here, part⟩
    · exact given v here
    · exact Value.within_of_part (given a here) part
  intro r t ends
  have outcome := b.call_outcome args r t ends
  cases r with
  | error e => exact ⟨(show t = s from outcome) ▸ closed, (show t = s from outcome) ▸ .refl s, nofun⟩
  | ok v =>
    cases outcome with
    | plain plain scopes fresh =>
      have grows : s.Grows t := ⟨scopes ▸ Nat.le_refl _, fresh ▸ Nat.le_refl _⟩
      exact ⟨closed.of_scopes scopes grows, grows, fun _ same =>
        Except.ok.inj same ▸ Value.within_of_plain plain⟩
    | given given => exact ⟨closed, .refl _, fun _ same => Except.ok.inj same ▸ inside given⟩
    | @new vs from_args =>
      exact Eval.newArray_closed closed (fun u here => inside (from_args u here)) _ _ rfl

/-! ## One step of evaluation -/

/-- In a scope of a closed state the evaluator stays within what the state has or gets. -/
def Evaluator.StaysClosed (eval : Evaluator) : Prop :=
  ∀ scope e s, s.Closed → scope < s.scopes.size →
    (eval scope e).StaysClosed s fun t v => v.In t

section

variable {eval : Evaluator} (stays : eval.StaysClosed) {scope : ScopeId} {s : State}

include stays

theorem evalAll_closed (es : List Expr) (closed : s.Closed) (there : scope < s.scopes.size) :
    (evalAll (eval scope) es).StaysClosed s fun t vs => ∀ v ∈ vs, v.In t := by
  induction es generalizing s with
  | nil => exact .pure closed nofun
  | cons e es ih =>
    refine (stays scope e s closed there).seq fun v t closed' grows one => ?_
    have there' := Nat.lt_of_lt_of_le there grows.scopes
    refine (ih closed' there').seq fun vs u closed'' grows' more => .pure closed'' ?_
    exact List.forall_mem_cons.2 ⟨grows'.keeps one, more⟩

theorem evalPairs_closed {table : Table Key Value} (ps : List (Expr × Expr)) (closed : s.Closed)
    (there : scope < s.scopes.size) (before : ∀ p ∈ table, p.2.In s) :
    (evalPairs (eval scope) table ps).StaysClosed s fun t pairs => ∀ p ∈ pairs, p.2.In t := by
  induction ps generalizing table s with
  | nil => exact .pure closed before
  | cons p ps ih =>
    refine (stays scope p.1 s closed there).seq fun k t closed' grows _ => ?_
    have there' := Nat.lt_of_lt_of_le there grows.scopes
    cases k.key? with
    | none => exact .fail closed'
    | some key =>
      refine (stays scope p.2 t closed' there').seq fun v u closed'' grows' value => ?_
      have there'' := Nat.lt_of_lt_of_le there' grows'.scopes
      refine ih closed'' there'' fun q here => ?_
      rcases Table.mem_insert here with rfl | old
      · exact value
      · exact grows'.keeps (grows.keeps (before q old))

theorem Statement.step_closed (one : Statement) (closed : s.Closed) (there : scope < s.scopes.size) :
    (one.step eval scope).StaysClosed s fun t result => ∀ v ∈ result, v.In t := by
  have only {v : Value} {t : State} (h : v.In t) : ∀ w ∈ some v, w.In t :=
    fun _ same => Option.mem_some.1 same ▸ h
  cases one with
  | bind x value =>
    refine (stays scope value s closed there).seq fun v t closed' grows whole => ?_
    split
    · exact .pure closed' (only whole)
    · have bound : (Eval.bindName scope x v).StaysClosed t fun _ _ => True :=
        .change (closed'.bind scope x whole) (.bind t scope x v) trivial
      exact bound.seq fun _ u closed'' _ _ => .pure closed'' nofun
  | leave value =>
    exact (stays scope value s closed there).seq fun v t closed' _ whole =>
      .pure closed' (only (v := .returned v) whole)
  | expr value =>
    exact (stays scope value s closed there).seq fun v t closed' _ whole =>
      .pure closed' (only whole)

theorem Statement.stepAll_closed {last : Option Value} (block : Block) (closed : s.Closed)
    (there : scope < s.scopes.size) (before : ∀ v ∈ last, v.In s) :
    (stepAll eval scope last block).StaysClosed s fun t result => ∀ v ∈ result, v.In t := by
  induction block generalizing last s with
  | nil => exact .pure closed before
  | cons one rest ih =>
    refine (Statement.step_closed stays one closed there).seq fun result t closed' grows whole => ?_
    split
    · exact .pure closed' whole
    · exact ih closed' (Nat.lt_of_lt_of_le there grows.scopes) whole

theorem Block.step_closed (block : Block) (closed : s.Closed) (there : scope < s.scopes.size) :
    (Block.step eval scope block).StaysClosed s fun t v => v.In t := by
  have none : ∀ v ∈ (none : Option Value), v.In s := nofun
  refine (Statement.stepAll_closed stays block closed there none).seq
    fun result t closed' _ whole => .pure closed' ?_
  cases result with
  | none => trivial
  | some v => exact whole v rfl

theorem Closure.step_closed {f : Closure} {args : List Value} (closed : s.Closed)
    (made : f.scope < s.scopes.size) (given : ∀ v ∈ args, v.In s) :
    (f.step eval args).StaysClosed s fun t v => v.In t := by
  have entered : (Eval.change (·.addScope (f.frame args))).StaysClosed s
      fun t scope => scope < t.scopes.size :=
    .change (closed.frame made given) (.addScope s _) (by simp [State.addScope])
  refine entered.seq fun scope t closed' _ there => ?_
  exact (Block.step_closed stays f.body closed' there).seq fun v u closed'' _ whole =>
    .pure closed'' (Value.within_unwrap whole)

theorem Value.stepCall_closed {callee : Value} {args : List Value} (closed : s.Closed)
    (whole : callee.In s) (given : ∀ v ∈ args, v.In s) :
    (callee.stepCall eval args).StaysClosed s fun t v => v.In t := by
  cases callee with
  | function _ f => exact Closure.step_closed stays closed whole.2 given
  | builtin b => exact b.call_closed closed given
  | _ => exact .fail closed

omit stays in
theorem evalName_closed (x : String) (closed : s.Closed) :
    (evalName scope x).StaysClosed s fun t v => v.In t := by
  have look : (Eval.look (·.lookup x scope)).StaysClosed s
      fun t found => ∀ v, found = some v → v.In t :=
    .look closed fun v bound => closed.bound.lookup bound
  refine look.seq fun found t closed' _ whole => ?_
  cases found with
  | some v => exact .pure closed' (whole v rfl)
  | none =>
    cases Builtin.ofName? x with
    | some b => exact .pure closed' trivial
    | none => exact .fail closed'

theorem Expr.step_closed (e : Expr) (closed : s.Closed) (there : scope < s.scopes.size) :
    (e.step eval scope).StaysClosed s fun t v => v.In t := by
  cases e with
  | name x => exact evalName_closed x closed
  | int n => exact .pure closed trivial
  | str text => exact .pure closed trivial
  | bool b => exact .pure closed trivial
  | unary op a =>
    exact (stays scope a s closed there).seq fun v t closed' _ _ => .ofExcept closed'
      fun w applied => Value.within_of_plain (UnaryOp.apply_plain applied)
  | binary op a b =>
    refine (stays scope a s closed there).seq fun v t closed' grows _ => ?_
    have there' := Nat.lt_of_lt_of_le there grows.scopes
    exact (stays scope b t closed' there').seq fun w u closed'' _ _ => .ofExcept closed''
      fun x applied => Value.within_of_plain (BinaryOp.apply_plain applied)
  | cond test yes no =>
    refine (stays scope test s closed there).seq fun v t closed' grows _ => ?_
    have there' := Nat.lt_of_lt_of_le there grows.scopes
    split
    · exact Block.step_closed stays yes closed' there'
    · cases no with
      | none => exact .pure closed' trivial
      | some no => exact Block.step_closed stays no closed' there'
  | fn params body => exact Eval.newFunction_closed closed there
  | array es =>
    exact (evalAll_closed stays es closed there).seq fun vs t closed' _ elements =>
      Eval.newArray_closed closed' elements
  | index a i =>
    refine (stays scope a s closed there).seq fun v t closed' grows whole => ?_
    have there' := Nat.lt_of_lt_of_le there grows.scopes
    refine (stays scope i t closed' there').seq fun w u closed'' grows' _ =>
      .ofExcept closed'' fun x found => ?_
    rcases Value.elementAt_origin found with rfl | part
    · trivial
    · exact Value.within_of_part (grows'.keeps whole) part
  | hash ps =>
    have none : ∀ p ∈ ([] : Table Key Value), p.2.In s := List.forall_mem_nil _
    exact (evalPairs_closed stays ps closed there none).seq fun table t closed' _ values =>
      Eval.newHash_closed closed' values
  | call f args =>
    refine (stays scope f s closed there).seq fun v t closed' grows whole => ?_
    have there' := Nat.lt_of_lt_of_le there grows.scopes
    split
    · exact (evalAll_closed stays args closed' there').seq fun vs u closed'' grows' elements =>
        Value.stepCall_closed stays closed'' (grows'.keeps whole) elements
    · exact .fail closed'

end

/-! ## Every depth -/

theorem Expr.eval_closed (n : Nat) : (Expr.eval n).StaysClosed := by
  induction n with
  | zero =>
    intro scope e s _ _ r t ends
    cases ends
  | succ n ih => exact fun scope e s closed there => Expr.step_closed ih e closed there

/-- A call in a closed state leaves a closed state, to which its value belongs. -/
theorem Value.call_closed {n : Nat} {callee : Value} {args : List Value} {s : State}
    (closed : s.Closed) (whole : callee.In s) (given : ∀ v ∈ args, v.In s) :
    (callee.call n args).StaysClosed s fun t v => v.In t :=
  Value.stepCall_closed (Expr.eval_closed n) closed whole given

theorem Program.run_closed {n : Nat} {scope : ScopeId} {program : Program} {s t : State}
    {result : Option Value} (closed : s.Closed) (there : scope < s.scopes.size)
    (ends : program.run n scope s = some (result, t)) :
    t.Closed ∧ s.Grows t ∧ ∀ v ∈ result, v.In t := by
  have body (m : Nat) := Statement.stepAll_closed (Expr.eval_closed m) program closed there
    (nofun : ∀ v ∈ (none : Option Value), v.In s)
  rcases Program.run_ends ends with ⟨r, ⟨m, whole⟩, rfl⟩ | ⟨e, ⟨m, whole⟩, rfl⟩
  · rcases body m (.ok r) t whole with ⟨closed', grows, fine⟩
    refine ⟨closed', grows, fun v given => ?_⟩
    rcases Option.map_eq_some_iff.1 given with ⟨w, here, rfl⟩
    exact Value.within_unwrap (fine r rfl w here)
  · rcases body m (.error e) t whole with ⟨closed', grows, -⟩
    refine ⟨closed', grows, fun v given => ?_⟩
    cases given
    trivial

/-- In every state of a session, everything that is referred to is there. -/
theorem Ran.closed {programs : List Program} {s : State} (ran : Ran programs s) :
    s.Closed ∧ State.root < s.scopes.size := by
  induction ran with
  | nil => exact ⟨.initial, by decide⟩
  | snoc _ ends ih =>
    rcases Program.run_closed ih.1 ih.2 ends with ⟨closed, grows, -⟩
    exact ⟨closed, Nat.lt_of_lt_of_le ih.2 grows.scopes⟩

end Script
