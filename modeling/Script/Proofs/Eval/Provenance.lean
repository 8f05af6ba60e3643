import Script.Proofs.Eval.Bound
import Script.Proofs.Eval.Faultless
import Script.Proofs.Eval.Objects

/-!
# What is handed on

A task comes by values in few ways: they are plain, they are at hand or bound when it begins, they
stand in others, or they are objects that it makes from such values. So a property of values that is
handed to parts and back by return markers, and that the objects made on the way have if their parts
have it, holds of all values that the task comes by: `Ends.inherits` and `Reaches.inherits`.
-/

namespace Script

/-! ## Properties that are handed on -/

/-- Plain values have the property, and it is handed to parts and through return markers. -/
structure Value.Hereditary (P : Value → Prop) : Prop where
  plain : ∀ v : Value, v.isPlain = true → P v
  part : ∀ v u : Value, P v → u ∈ v.parts → P u
  marked : ∀ v : Value, P (.returned v) ↔ P v

/-- Every object made on the way of the task has the property if its parts have it. -/
def Supplies (P : Value → Prop) (a : Task) (s : State) : Prop :=
  ∀ v, Bears a s v → (∀ u ∈ v.parts, P u) → P v

variable {P : Value → Prop}

theorem Supplies.part {a b : Task} {s t : State} (supplies : Supplies P a s) (part : Part a s b t) :
    Supplies P b t :=
  fun v ⟨scope, e, u, reached, makes⟩ => supplies v ⟨scope, e, u, .step part reached, makes⟩

theorem Supplies.makes {scope : ScopeId} {e : Expr} {s : State} {v : Value}
    (supplies : Supplies P (.expr scope e) s) (makes : Makes scope e s v)
    (parts : ∀ u ∈ v.parts, P u) : P v :=
  supplies v ⟨scope, e, s, .refl _ _, makes⟩ parts

theorem Value.Hereditary.unwrap (hereditary : Hereditary P) {v : Value} (h : P v) : P v.unwrap := by
  cases v with
  | returned v => exact (hereditary.marked v).1 h
  | _ => exact h

/-- What goes on may use where the first part has ended. -/
theorem Eval.Upholds.seq_of_ends {α β : Type} {inv : State → Prop} {passes : α → Prop}
    {passes' : β → Prop} {s : State} {x : Eval α} {f : α → Eval β} (first : x.Upholds inv s passes)
    (next : ∀ y t, x s = some (.ok y, t) → inv t → passes y → (f y).Upholds inv t passes') :
    (x >>= f).Upholds inv s passes' := by
  refine After.seq (fun y t ends => ?_) fun e t ends => ⟨(first (.error e) t ends).1, nofun⟩
  rcases first (.ok y) t ends with ⟨left, pass⟩
  exact next y t ends left (pass y rfl)

/-- To depth `n` the task gives and binds only values with the property, if the objects it makes on the
way have it. -/
def Inherits (P : Value → Prop) (n : Nat) (task : Task) : Prop :=
  ∀ s, task.BeginsWith P → s.Bound P → Supplies P task s →
    (task.eval n).Upholds (State.Bound P) s (task.EndsWith P)

/-! ## Lists and statements -/

section

variable {n : Nat} (expressions : ∀ scope e, Inherits P n (.expr scope e))

include expressions

theorem inherits_all (scope : ScopeId) (es : List Expr) : Inherits P n (.all scope es) := by
  induction es with
  | nil => exact fun s _ bound _ => .pure bound fun _ none => absurd none List.not_mem_nil
  | cons e es ih =>
    intro s _ bound supplies
    have first := expressions scope e s trivial bound (supplies.part .first)
    refine first.seq_of_ends fun v t ends bound' one => ?_
    have others := ih t trivial bound' (supplies.part (.others ⟨n, ends⟩))
    refine others.seq fun vs u bound'' more => ?_
    exact .pure bound'' (List.forall_mem_cons.2 ⟨one, more⟩)

theorem inherits_pairs (scope : ScopeId) (table : Table Key Value) (ps : List (Expr × Expr)) :
    Inherits P n (.pairs scope table ps) := by
  induction ps generalizing table with
  | nil => exact fun s begins bound _ => .pure bound begins
  | cons p ps ih =>
    rcases p with ⟨key, value⟩
    intro s begins bound supplies
    have first := expressions scope key s trivial bound (supplies.part .key)
    refine first.seq_of_ends fun v t ends bound' _ => ?_
    rcases keyed : v.key? with _ | k
    · exact .fail bound'
    · have second := expressions scope value t trivial bound' (supplies.part (.value ⟨n, ends⟩ keyed))
      refine second.seq_of_ends fun w u ends' bound'' given => ?_
      refine ih (table.insert k w) u (fun p here => ?_) bound''
        (supplies.part (.morePairs ⟨n, ends⟩ keyed ⟨n, ends'⟩))
      rcases Table.mem_insert here with rfl | before
      · exact given
      · exact begins p before

theorem inherits_statement (hereditary : Value.Hereditary P) (scope : ScopeId) (one : Statement) :
    Inherits P n (.statement scope one) := by
  intro s _ bound supplies
  have value := expressions scope one.value s trivial bound (supplies.part .expr)
  cases one with
  | bind x e =>
    refine value.seq fun v t bound' given => ?_
    split
    · exact .pure bound' fun _ same => Option.mem_some.1 same ▸ given
    · have new : (Eval.bindName scope x v).Upholds (State.Bound P) t fun _ => True :=
        .change (bound'.bind scope x given) trivial
      exact new.seq fun _ u bound'' _ => .pure bound'' nofun
  | leave e =>
    refine value.seq fun v t bound' given => .pure bound' ?_
    exact fun _ same => Option.mem_some.1 same ▸ (hereditary.marked v).2 given
  | expr e =>
    refine value.seq fun v t bound' given => .pure bound' ?_
    exact fun _ same => Option.mem_some.1 same ▸ given

theorem inherits_statements (hereditary : Value.Hereditary P) (scope : ScopeId) (last : Option Value)
    (block : Block) : Inherits P n (.statements scope last block) := by
  induction block generalizing last with
  | nil => exact fun s begins bound _ => .pure bound begins
  | cons one rest ih =>
    intro s _ bound supplies
    have first := inherits_statement expressions hereditary scope one s trivial bound
      (supplies.part .statement)
    refine first.seq_of_ends fun result t ends bound' given => ?_
    by_cases marked : result.any Value.isReturned = true
    · rw [if_pos marked]
      exact .pure bound' given
    · rw [if_neg marked]
      have unmarked := Bool.eq_false_iff.2 marked
      exact ih result t given bound' (supplies.part (.statements ⟨n, ends⟩ unmarked))

theorem inherits_body (hereditary : Value.Hereditary P) (scope : ScopeId) (block : Block) :
    Inherits P n (.body scope block) :=
  fun s _ bound supplies =>
    inherits_statements expressions hereditary scope none block s nofun bound (supplies.part .body)

/-! ## Calls -/

theorem inherits_block (hereditary : Value.Hereditary P) {scope : ScopeId} {block : Block} {s : State}
    (bound : s.Bound P) (supplies : Supplies P (.statements scope none block) s) :
    (block.step (Expr.eval n) scope).Upholds (State.Bound P) s P := by
  have run := inherits_statements expressions hereditary scope none block s nofun bound supplies
  refine run.seq fun result t bound' given => .pure bound' ?_
  cases result with
  | none => exact hereditary.plain .null rfl
  | some v => exact given v rfl

/-- A function hands on what its body gives, and a built-in function what stands in the arguments. -/
theorem inherits_call (hereditary : Value.Hereditary P) {scope : ScopeId} {f : Expr}
    {args : List Expr} {s : State} (bound : s.Bound P)
    (supplies : Supplies P (.expr scope (.call f args)) s) :
    ((Expr.call f args).step (Expr.eval n) scope).Upholds (State.Bound P) s P := by
  have callee := expressions scope f s trivial bound (supplies.part .callee)
  refine callee.seq_of_ends fun v t ends bound' _ => ?_
  by_cases callable : v.isCallable = true
  · rw [if_pos callable]
    have given := inherits_all expressions scope args t trivial bound'
      (supplies.part (.arguments ⟨n, ends⟩ callable))
    refine given.seq_of_ends fun vs u ends' bound'' args => ?_
    cases v with
    | function id closure =>
      have start : (u.addScope (closure.frame vs)).2.Bound P :=
        bound''.frame (hereditary.plain .null rfl) args
      have inside := (supplies.part (.call ⟨n, ends⟩ ⟨n, ends'⟩)).part .body
      have block := inherits_block expressions hereditary start inside
      have body : ((closure.body.step (Expr.eval n) u.scopes.size) >>= fun v => pure v.unwrap).Upholds
          (State.Bound P) (u.addScope (closure.frame vs)).2 P :=
        block.seq fun v w left pass => .pure left (hereditary.unwrap pass)
      exact body
    | builtin b =>
      have handed {v : Value} (given : Builtin.Given vs v) : P v := by
        rcases given with here | ⟨a, here, part⟩
        · exact args v here
        · exact hereditary.part a v (args a here) part
      intro r w called
      have outcome := b.call_outcome vs r w called
      cases r with
      | error e => exact ⟨(show w = u from outcome) ▸ bound'', nofun⟩
      | ok v =>
        cases outcome with
        | plain plain scopes =>
          exact ⟨bound''.of_scopes scopes, fun _ same =>
            Except.ok.inj same ▸ hereditary.plain v plain⟩
        | given given => exact ⟨bound'', fun _ same => Except.ok.inj same ▸ handed given⟩
        | new from_args =>
          refine ⟨bound''.of_scopes rfl, fun _ same => Except.ok.inj same ▸ ?_⟩
          exact supplies.makes (.builtin ⟨n, ends⟩ ⟨n, ends'⟩ called) fun v here =>
            handed (from_args v here)
    | _ => cases callable
  · rw [if_neg callable]
    exact .fail bound'

/-! ## Expressions -/

omit expressions in
theorem inherits_name (hereditary : Value.Hereditary P) {scope : ScopeId} {x : String} {s : State}
    (bound : s.Bound P) : (evalName scope x).Upholds (State.Bound P) s P := by
  have look : (Eval.look (·.lookup x scope)).Upholds (State.Bound P) s
      fun found => ∀ v, found = some v → P v :=
    .look bound fun v found => bound.lookup found
  refine look.seq fun found t bound' given => ?_
  cases found with
  | some v => exact .pure bound' (given v rfl)
  | none =>
    cases Builtin.ofName? x with
    | some b => exact .pure bound' (hereditary.plain (.builtin b) rfl)
    | none => exact .fail bound'

/-- One step deeper: the property is handed from the parts to the whole. -/
theorem inherits_succ (hereditary : Value.Hereditary P) (scope : ScopeId) (e : Expr) :
    Inherits P (n + 1) (.expr scope e) := by
  intro s _ bound supplies
  have plain := hereditary.plain
  cases e with
  | name x => exact inherits_name hereditary bound
  | int i => exact .pure bound (plain (.int i) rfl)
  | str text => exact .pure bound (plain (.str text) rfl)
  | bool b => exact .pure bound (plain (.bool b) rfl)
  | unary op a =>
    refine (expressions scope a s trivial bound (supplies.part .operand)).seq fun v t bound' _ => ?_
    exact .ofExcept bound' fun w applied => plain w (UnaryOp.apply_plain applied)
  | binary op a b =>
    have left := expressions scope a s trivial bound (supplies.part .left)
    refine left.seq_of_ends fun v t ends bound' _ => ?_
    have right := expressions scope b t trivial bound' (supplies.part (.right ⟨n, ends⟩))
    refine right.seq fun w u bound'' _ => ?_
    exact .ofExcept bound'' fun x applied => plain x (BinaryOp.apply_plain applied)
  | cond test yes no =>
    have tested := expressions scope test s trivial bound (supplies.part .test)
    refine tested.seq_of_ends fun v t ends bound' _ => ?_
    by_cases true : v.isTruthy = true
    · rw [if_pos true]
      exact inherits_block expressions hereditary bound' (supplies.part (.yes ⟨n, ends⟩ true))
    · rw [if_neg true]
      cases no with
      | none => exact .pure bound' (plain .null rfl)
      | some no =>
        have false := Bool.eq_false_iff.2 true
        exact inherits_block expressions hereditary bound' (supplies.part (.no ⟨n, ends⟩ false))
  | fn params body =>
    have made : P (.function s.fresh ⟨params, body, scope⟩) :=
      supplies.makes .fn fun v here => absurd here List.not_mem_nil
    have new : (Eval.newFunction ⟨params, body, scope⟩).Upholds (State.Bound P) s P :=
      .change (bound.of_scopes rfl) made
    exact new
  | array es =>
    have elements := inherits_all expressions scope es s trivial bound (supplies.part .elements)
    refine elements.seq_of_ends fun vs t ends bound' given => ?_
    exact .change (bound'.of_scopes rfl) (supplies.makes (.array ⟨n, ends⟩) given)
  | index a i =>
    have collection := expressions scope a s trivial bound (supplies.part .collection)
    refine collection.seq_of_ends fun v t ends bound' whole => ?_
    have position := expressions scope i t trivial bound' (supplies.part (.position ⟨n, ends⟩))
    refine position.seq fun w u bound'' _ => .ofExcept bound'' fun x found => ?_
    rcases Value.elementAt_origin found with rfl | part
    · exact plain .null rfl
    · exact hereditary.part v x whole part
  | hash ps =>
    have pairs := inherits_pairs expressions scope [] ps s nofun bound (supplies.part .hash)
    refine pairs.seq_of_ends fun table t ends bound' given => ?_
    refine .change (bound'.of_scopes rfl) (supplies.makes (.hash ⟨n, ends⟩) fun v here => ?_)
    rcases List.mem_map.1 here with ⟨p, stands, rfl⟩
    exact given p stands
  | call f args => exact inherits_call expressions hereditary bound supplies

end

/-! ## Every depth -/

section

variable (hereditary : Value.Hereditary P)

include hereditary

theorem inherits_expr (n : Nat) : ∀ scope e, Inherits P n (.expr scope e) := by
  induction n with
  | zero =>
    intro scope e s _ _ _ r t ends
    cases ends
  | succ n ih => exact inherits_succ ih hereditary

theorem inherits (n : Nat) (task : Task) : Inherits P n task := by
  have expressions := inherits_expr hereditary n
  cases task with
  | expr scope e => exact expressions scope e
  | all scope es => exact inherits_all expressions scope es
  | pairs scope table ps => exact inherits_pairs expressions scope table ps
  | statement scope one => exact inherits_statement expressions hereditary scope one
  | statements scope last block => exact inherits_statements expressions hereditary scope last block
  | body scope block => exact inherits_body expressions hereditary scope block

variable {a b : Task} {s t : State}

/-- What a task gives and what it leaves bound has the property. -/
theorem Ends.inherits {r : Except Fault a.Result} (ends : Ends a s r t) (begins : a.BeginsWith P)
    (bound : s.Bound P) (supplies : Supplies P a s) :
    t.Bound P ∧ ∀ x, r = .ok x → a.EndsWith P x := by
  rcases ends with ⟨n, ends⟩
  exact Script.inherits hereditary n a s begins bound supplies r t ends

/-- What the parts before it leave has the property when the next part begins. -/
theorem Part.inherits (part : Part a s b t) (begins : a.BeginsWith P) (bound : s.Bound P)
    (supplies : Supplies P a s) : b.BeginsWith P ∧ t.Bound P := by
  have after : ∀ {c : Task} {t : State} {x : c.Result} {u : State}, Part a s c t → c.BeginsWith P →
      t.Bound P → Ends c t (.ok x) u → u.Bound P ∧ c.EndsWith P x := by
    intro c t x u part begins bound ends
    rcases ends.inherits hereditary begins bound (supplies.part part) with ⟨left, given⟩
    exact ⟨left, given x rfl⟩
  cases part with
  | operand | left | test | collection | callee | first | key | expr | elements | statement =>
    exact ⟨trivial, bound⟩
  | hash | body => exact ⟨nofun, bound⟩
  | right ends => exact ⟨trivial, (after .left trivial bound ends).1⟩
  | yes ends _ | no ends _ => exact ⟨nofun, (after .test trivial bound ends).1⟩
  | position ends => exact ⟨trivial, (after .collection trivial bound ends).1⟩
  | arguments ends _ => exact ⟨trivial, (after .callee trivial bound ends).1⟩
  | call ends ends' =>
    have called := (after .callee trivial bound ends).1
    rcases after (.arguments ends rfl) trivial called ends' with ⟨bound', args⟩
    exact ⟨trivial, bound'.frame (hereditary.plain .null rfl) args⟩
  | others ends => exact ⟨trivial, (after .first trivial bound ends).1⟩
  | value ends _ => exact ⟨trivial, (after .key trivial bound ends).1⟩
  | morePairs ends keyed ends' =>
    have key := (after .key trivial bound ends).1
    rcases after (.value ends keyed) trivial key ends' with ⟨bound', value⟩
    refine ⟨fun p here => ?_, bound'⟩
    rcases Table.mem_insert here with rfl | before
    · exact value
    · exact begins p before
  | statements ends _ =>
    rcases after .statement trivial bound ends with ⟨bound', given⟩
    exact ⟨given, bound'⟩

theorem Reaches.inherits (reached : Reaches a s b t) (begins : a.BeginsWith P) (bound : s.Bound P)
    (supplies : Supplies P a s) : b.BeginsWith P ∧ t.Bound P ∧ Supplies P b t := by
  induction reached with
  | refl => exact ⟨begins, bound, supplies⟩
  | step part _ ih =>
    rcases part.inherits hereditary begins bound supplies with ⟨begins', bound'⟩
    exact ih begins' bound' (supplies.part part)

end

end Script
