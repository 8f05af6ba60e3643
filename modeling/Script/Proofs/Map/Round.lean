import Mathlib.Data.List.Forall2
import Script.Proofs.Eval.Extends
import Script.Proofs.Eval.Walk
import Script.Proofs.Map.Text

/-!
# Rounds of `iter`

A round of `iter` that finds an element goes on to a round in a new scope, with one element less and
one value more: `Round.goes`. So rounds go on as long as `f` gives values: `Round.loop`. With no element
left, what has been gathered is given, and if `f` fails, so does the round.
-/

namespace Script

/-! ## What the functions see -/

/-- The function that goes over the array, made in the scope `j` of a call of `map`. -/
def iterClosure (j : ScopeId) : Closure :=
  ⟨["arr", "accumulated"], iterBody, j⟩

def mapClosure (scope : ScopeId) : Closure :=
  ⟨["arr", "f"], mapBody, scope⟩

/-- The built-in functions that `map` uses. -/
def mapBuiltins : List Builtin :=
  [.len, .first, .rest, .push]

/-- From the scope `i` these names stand for what a call of `map` on `f` in the scope `j` needs. -/
structure Sees (f : Value) (j i : ScopeId) (s : State) : Prop where
  there : i < s.scopes.size
  iter : ∃ id, s.lookup "iter" i = some (.function id (iterClosure j))
  callee : s.lookup "f" i = some f
  builtins : ∀ b ∈ mapBuiltins, evalName i b.name s = some (.ok (.builtin b), s)

variable {f : Value} {j i : ScopeId} {s t u : State}

theorem Sees.later (sees : Sees f j i s) (later : s.Extends t) : Sees f j i t := by
  have same (x : String) := later.untouched.lookup x sees.there
  refine ⟨Nat.lt_of_lt_of_le sees.there later.grows.scopes, ?_, ?_, fun b used => ?_⟩
  · simpa only [same] using sees.iter
  · simpa only [same] using sees.callee
  · exact evalName_congr (same _) (sees.builtins b used)

/-- The parameters of `iter` hide none of the names. -/
theorem Sees.enter (sees : Sees f j j s) (args : List Value) :
    Sees f j s.scopes.size (s.addScope ((iterClosure j).frame args)).2 := by
  have same {x : String} (first : x ≠ "arr") (second : x ≠ "accumulated") :
      (s.addScope ((iterClosure j).frame args)).2.lookup x s.scopes.size = s.lookup x j := by
    refine State.lookup_addScope ?_ rfl sees.there
    simp [Closure.frame, iterClosure, bindParams, Table.get?_insert, first, second]
  refine ⟨by simp [State.addScope], ?_, ?_, fun b used => ?_⟩
  · rw [same (by decide) (by decide)]
    exact sees.iter
  · rw [same (by decide) (by decide)]
    exact sees.callee
  · have plain : ∀ b ∈ mapBuiltins, b.name ≠ "arr" ∧ b.name ≠ "accumulated" := by decide
    exact evalName_congr (same (plain b used).1 (plain b used).2) (sees.builtins b used)

/-- No built-in function has the name that `map` gives to what it calls. -/
theorem builtin_ne_callee {b : Builtin} (used : b ∈ mapBuiltins) : Expr.name b.name ≠ .name "f" := by
  have plain : ∀ b ∈ mapBuiltins, b.name ≠ "f" := by decide
  exact fun same => plain b used (Expr.name.inj same)

/-- A call of a built-in function by its name. -/
theorem Sees.builtin (sees : Sees f j i s) {b : Builtin} (used : b ∈ mapBuiltins) {args : List Expr}
    {vs : List Value} {r : Except Fault Value} {log : List Application}
    (given : Walk "f" (.all i args) s (.ok vs) t log) (called : b.call vs t = some (r, u)) :
    Walk "f" (.expr i (.call (.name b.name) args)) s r u log :=
  .builtin (builtin_ne_callee used) (.name (sees.builtins b used)) given called

theorem Sees.builtin_fails (sees : Sees f j i s) {b : Builtin} (used : b ∈ mapBuiltins)
    {args : List Expr} {e : Fault} {log : List Application}
    (given : Walk "f" (.all i args) s (.error e) t log) :
    Walk "f" (.expr i (.call (.name b.name) args)) s (.error e) t log :=
  .argument (builtin_ne_callee used) (.name (sees.builtins b used)) rfl given

/-! ## Rounds -/

/-- A call leaves an outcome without a marker as it is. -/
theorem unwrapped_of_settled {r : Except Fault Value} (settled : r.map Value.unwrap = r) :
    (r.map some).map (fun result : Option Value => (result.getD .null).unwrap) = r := by
  cases r <;> exact settled

/-- The scope `i` is that of a round of `iter`, in which the elements `rest` are left and the values
`done` have been gathered, in an array made behind all those before `fresh`. -/
structure Round (f : Value) (j i : ScopeId) (fresh : ObjectId) (rest done : List Value)
    (s : State) : Prop where
  outer : Sees f j j s
  own : Sees f j i s
  arr : ∃ id, s.lookup "arr" i = some (.array id rest)
  accumulated : ∃ id, fresh ≤ id ∧ s.lookup "accumulated" i = some (.array id done)
  made : fresh ≤ s.fresh

/-- Called where its outer scope is as it should be, `iter` begins a round. -/
theorem Sees.round (sees : Sees f j j s) (id : ObjectId) {id' fresh : ObjectId}
    (rest done : List Value) (new : fresh ≤ id') (made : fresh ≤ s.fresh) :
    Round f j s.scopes.size fresh rest done
      (s.addScope ((iterClosure j).frame [.array id rest, .array id' done])).2 where
  outer := sees.later (.addScope s _)
  own := sees.enter _
  arr := ⟨id, State.lookup_addScope_self (by
    simp [Closure.frame, iterClosure, bindParams, Table.get?_insert])⟩
  accumulated := ⟨id', new, State.lookup_addScope_self (by
    simp [Closure.frame, iterClosure, bindParams, Table.get?_insert])⟩
  made := made

/-- In every later state `f` gives a value for `v` and prints nothing, and the value is what `g` gives,
as far as `same` can tell. -/
def Behaves (f : Value) (same : Value → Value → Prop) (g : Value → Value) (s : State)
    (v : Value) : Prop :=
  ∀ t, s.Extends t → ∃ w u, f.CallEnds [v] t (.ok w) u ∧ u.printed = t.printed ∧ same w (g v)

/-- The calls are one call of `f` on each of the values, in this order. -/
structure OneEach (f : Value) (vs : List Value) (log : List Application) : Prop where
  given : log.map (fun c => (c.callee, c.args)) = vs.map fun v => (f, [v])
  /-- Each is made in a newer scope than those before it. -/
  order : log.Pairwise fun c d => c.scope < d.scope

theorem OneEach.cons {vs : List Value} {v : Value} {log : List Application} (each : OneEach f vs log)
    {c : Application} (callee : c.callee = f) (args : c.args = [v])
    (order : ∀ d ∈ log, c.scope < d.scope) : OneEach f (v :: vs) (c :: log) where
  given := by
    rw [List.map_cons, List.map_cons, each.given, callee, args]
  order := List.pairwise_cons.2 ⟨order, each.order⟩

/-- From the round in the scope `i` on, `f` is called on each of the values, and then `iter` ends. -/
structure IterRun (f : Value) (i : ScopeId) (s : State) (vs : List Value) (r : Except Fault Value)
    (t : State) (log : List Application) : Prop where
  walk : Walk "f" (.body i iterBody) s (r.map some) t log
  each : OneEach f vs log
  newer : ∀ c ∈ log, i ≤ c.scope

namespace Round

variable {fresh : ObjectId} {rest done : List Value} {v w : Value} {r : Except Fault Value}
  {log : List Application}

theorem later (round : Round f j i fresh rest done s) (later : s.Extends t) :
    Round f j i fresh rest done t := by
  have same (x : String) := later.untouched.lookup x round.own.there
  refine ⟨round.outer.later later, round.own.later later, ?_, ?_,
    Nat.le_trans round.made later.grows.fresh⟩
  · simpa only [same] using round.arr
  · simpa only [same] using round.accumulated

theorem test (round : Round f j i fresh rest done s) :
    Walk "f" (.expr i iterTest) s (.ok (.bool rest.isEmpty)) s [] := by
  rcases round.arr with ⟨id, arr⟩
  have length : Walk "f" (.expr i (.call (.name "len") [.name "arr"])) s
      (.ok (.int (Integer.ofLength rest.length))) s [] :=
    round.own.builtin (b := .len) (by decide) (.cons (.name (evalName_of_lookup arr)) .nil) rfl
  have empty : BinaryOp.equal.apply (.int (Integer.ofLength rest.length)) (.int 0) =
      .ok (.bool rest.isEmpty) := by
    have none : rest.isEmpty = decide (Integer.ofLength rest.length = 0) := by
      rw [Bool.eq_iff_iff]
      simp [Integer.ofLength_eq_zero]
    rw [none]
    rfl
  rw [← empty]
  exact length.binary (.int 0)

/-- With no element left, the round gives what has been gathered. -/
theorem finished (round : Round f j i fresh [] done s) :
    ∃ id, fresh ≤ id ∧ IterRun f i s [] (.ok (.array id done)) s [] := by
  rcases round.accumulated with ⟨id, new, accumulated⟩
  have found := Walk.name (x := "f") (evalName_of_lookup accumulated)
  have branch : Walk "f" (.expr i iterChoice) s _ s _ :=
    .yes round.test rfl (.single found.exprStatement)
  exact ⟨id, new, .body (.single branch.exprStatement), ⟨rfl, .nil⟩, nofun⟩

/-- With an element left, the round does what is said in its second branch. -/
theorem branch (round : Round f j i fresh (v :: rest) done s)
    (more : Walk "f" (.expr i iterMore) s r t log) :
    Walk "f" (.body i iterBody) s (r.map some) t log := by
  have branch : Walk "f" (.expr i iterChoice) s _ t _ :=
    .no round.test rfl (.single more.exprStatement)
  have whole := Walk.body (.single branch.exprStatement)
  cases r <;> exact whole

/-- The call of `f` on the first element. -/
theorem item (round : Round f j i fresh (v :: rest) done s) (callable : f.isCallable = true)
    (called : f.CallEnds [v] s r t) :
    Walk "f" (.expr i iterItem) s r t [⟨i, f, [v], s⟩] := by
  rcases round.arr with ⟨id, arr⟩
  have first : Walk "f" (.expr i (.call (.name "first") [.name "arr"])) s (.ok v) s [] :=
    round.own.builtin (b := .first) (by decide) (.cons (.name (evalName_of_lookup arr)) .nil) rfl
  exact .named (.name (evalName_of_lookup round.own.callee)) callable (.cons first .nil) called

theorem others (round : Round f j i fresh (v :: rest) done s) :
    Walk "f" (.expr i (.call (.name "rest") [.name "arr"])) s (.ok (.array s.fresh rest)) s.useFresh
      [] := by
  rcases round.arr with ⟨id, arr⟩
  exact round.own.builtin (b := .rest) (by decide) (.cons (.name (evalName_of_lookup arr)) .nil) rfl

/-- If `f` fails, so does the round. -/
theorem fails {e : Fault} (round : Round f j i fresh (v :: rest) done s)
    (callable : f.isCallable = true) (called : f.CallEnds [v] s.useFresh (.error e) t) :
    IterRun f i s [v] (.error e) t [⟨i, f, [v], s.useFresh⟩] := by
  have later := round.later (.useFresh s)
  rcases later.accumulated with ⟨id, -, accumulated⟩
  rcases round.own.iter with ⟨id', iter⟩
  have pushed : Walk "f" (.expr i iterPush) s.useFresh (.error e) t [⟨i, f, [v], s.useFresh⟩] :=
    later.own.builtin_fails (b := .push) (by decide)
      (.others (.name (evalName_of_lookup accumulated)) (later.item callable called).first)
  have more : Walk "f" (.expr i iterMore) s (.error e) t [⟨i, f, [v], s.useFresh⟩] :=
    .argument (by simp) (.name (evalName_of_lookup iter)) rfl (.others round.others pushed.first)
  refine ⟨round.branch more, ⟨rfl, List.pairwise_singleton _ _⟩, fun c mem => ?_⟩
  rw [List.mem_singleton.1 mem]

/-- If `f` gives a value, it is gathered and a round in a new scope follows. -/
theorem goes (round : Round f j i fresh (v :: rest) done s) (callable : f.isCallable = true)
    (called : f.CallEnds [v] s.useFresh (.ok w) t) :
    ∃ i' s', Round f j i' fresh rest (done ++ [w]) s' ∧ t.Extends s' ∧ s'.printed = t.printed ∧
      ∀ r u vs log, r.map Value.unwrap = r → IterRun f i' s' vs r u log →
        IterRun f i s (v :: vs) r u (⟨i, f, [v], s.useFresh⟩ :: log) := by
  have later := round.later (.useFresh s)
  have after := later.later (.call called)
  rcases later.accumulated with ⟨id, -, accumulated⟩
  rcases round.own.iter with ⟨id', iter⟩
  have pushed : Walk "f" (.expr i iterPush) s.useFresh (.ok (.array t.fresh (done ++ [w])))
      t.useFresh [⟨i, f, [v], s.useFresh⟩] :=
    later.own.builtin (b := .push) (by decide)
      (.cons (.name (evalName_of_lookup accumulated)) (.cons (later.item callable called) .nil)) rfl
  -- `rest` makes an array, then `f` is called, then `push` makes one, then comes the scope.
  have next := (after.later (.useFresh t)).outer.round s.fresh rest (done ++ [w]) after.made
    (after.later (.useFresh t)).made
  refine ⟨_, _, next, (State.Extends.useFresh t).trans (.addScope _ _), rfl, ?_⟩
  intro r u vs log settled run
  have more : Walk "f" (.expr i iterMore) s r u (⟨i, f, [v], s.useFresh⟩ :: log) := by
    have whole := Walk.call (x := "f") (f := .name "iter") (by simp) (.name (evalName_of_lookup iter))
      (.cons round.others (.cons pushed .nil)) run.walk
    rw [unwrapped_of_settled settled] at whole
    exact whole
  have newer : i < t.scopes.size := round.own.there.trans_le (State.Extends.call called).grows.scopes
  refine ⟨round.branch more, run.each.cons rfl rfl ?_, fun c mem => ?_⟩
  · exact fun c mem => Nat.lt_of_lt_of_le newer (run.newer c mem)
  · rcases List.mem_cons.1 mem with rfl | mem
    · exact Nat.le_refl _
    · exact Nat.le_trans (Nat.le_of_lt newer) (run.newer c mem)

/-- As long as `f` gives values, they are gathered. -/
theorem loop {same : Value → Value → Prop} {g : Value → Value} {front : List Value}
    (callable : f.isCallable = true) (each : ∀ v ∈ front, Behaves f same g s v)
    (round : Round f j i fresh (front ++ rest) done s) :
    ∃ ws i' t, List.Forall₂ same ws (front.map g) ∧ Round f j i' fresh rest (done ++ ws) t ∧
      s.Extends t ∧ t.printed = s.printed ∧
      ∀ r u vs log, r.map Value.unwrap = r → IterRun f i' t vs r u log →
        ∃ log, IterRun f i s (front ++ vs) r u log := by
  -- On the front of the elements: what `f` does in every state later than `s` it also does in every
  -- state later than the next round's.
  induction front generalizing i done s with
  | nil =>
    exact ⟨[], i, s, .nil, by simpa using round, .refl s, rfl, fun r u vs log _ run => ⟨log, run⟩⟩
  | cons v front ih =>
    rcases List.forall_mem_cons.1 each with ⟨first, others⟩
    rcases first s.useFresh (.useFresh s) with ⟨w, t, called, quiet, right⟩
    rcases round.goes callable called with ⟨i', s', next, later, quiet', goes⟩
    have extends' := ((State.Extends.useFresh s).trans (.call called)).trans later
    have others' : ∀ v ∈ front, Behaves f same g s' v :=
      fun v mem u after => others v mem u (extends'.trans after)
    rcases ih others' next with ⟨ws, i'', t', values, last, later', quiet'', run⟩
    refine ⟨w :: ws, i'', t', .cons right values, by simpa using last, extends'.trans later',
      quiet''.trans (quiet'.trans quiet), ?_⟩
    intro r u vs log settled rest
    rcases run r u vs log settled rest with ⟨log', rest'⟩
    exact ⟨_, goes r u _ log' settled rest'⟩

end Round

end Script
