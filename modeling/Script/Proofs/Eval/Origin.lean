import Script.Eval.Builtin
import Script.Eval.Operator
import Script.Proofs.Eval.After

/-!
# Where values come from

What operators and indexing give is plain or stood in an operand. A built-in function gives a plain
value, one that stood in an argument, or a new array of such values and arguments: `Builtin.Gives`.
A property of values that holds of plain ones and is handed to what stands in them, and back, is
therefore kept by all of them.
-/

namespace Script

/-! ## Plain values and parts -/

/-- Is the value compared by its content? Return markers and errors are not. -/
def Value.isPlain : Value → Bool
  | .int _ | .bool _ | .str _ | .builtin _ | .null => true
  | _ => false

/-- The values that stand in an array or in a hash. -/
def Value.parts : Value → List Value
  | .array _ elements => elements
  | .hash _ pairs => pairs.map Prod.snd
  | _ => []

/-! ## Operators and indexing -/

theorem UnaryOp.apply_plain {op : UnaryOp} {v w : Value} (h : op.apply v = .ok w) :
    w.isPlain = true := by
  cases op with
  | not =>
    cases h
    rfl
  | negate =>
    cases v with
    | int n =>
      cases h
      rfl
    | _ => cases h

theorem BinaryOp.onInts_plain {op : BinaryOp} {m n : Int64} {w : Value}
    (h : op.onInts m n = .ok w) : w.isPlain = true := by
  cases op with
  | div =>
    rw [onInts] at h
    split at h
    · cases h
    · cases h
      rfl
  | _ =>
    cases h
    rfl

theorem BinaryOp.onOthers_plain {op : BinaryOp} {v w u : Value} (h : op.onOthers v w = .ok u) :
    u.isPlain = true := by
  cases op with
  | equal | notEqual =>
    cases h
    rfl
  | _ =>
    simp only [onOthers] at h
    split at h <;> cases h

/-- No operator gives an object. -/
theorem BinaryOp.apply_plain {op : BinaryOp} {v w u : Value} (h : op.apply v w = .ok u) :
    u.isPlain = true := by
  unfold apply at h
  split at h
  · exact onInts_plain h
  · cases h
    rfl
  · cases h
  · exact onOthers_plain h

/-- What indexing finds stands in the collection. -/
theorem Value.elementAt_origin {v w u : Value} (h : v.elementAt w = .ok u) :
    u = .null ∨ u ∈ v.parts := by
  unfold elementAt at h
  split at h
  case h_1 id vs i =>
    cases h
    rcases there : (Integer.toIndex? i).bind fun i => vs[i]? with _ | u
    · exact .inl rfl
    · rcases Option.bind_eq_some_iff.1 there with ⟨place, -, there⟩
      exact .inr (List.mem_of_getElem? there)
  case h_2 id ps =>
    split at h
    · rename_i k keyed
      cases h
      rcases there : Table.get? k ps with _ | u
      · exact .inl rfl
      · exact .inr (List.mem_map_of_mem (Table.mem_of_get? there))
    · cases h
  case h_3 => cases h

/-! ## Built-in functions -/

namespace Builtin

/-- An argument, or a value that stands in one. -/
def Given (args : List Value) (v : Value) : Prop :=
  v ∈ args ∨ ∃ a ∈ args, v ∈ a.parts

/-- Called with the arguments in the state `s`, a built-in function can give `v` and leave `t`. -/
inductive Gives (args : List Value) (s : State) : Value → State → Prop
  /-- A plain value; lines may have been printed. -/
  | plain {v : Value} {t : State} : v.isPlain = true → t.scopes = s.scopes → t.fresh = s.fresh →
      Gives args s v t
  | given {v : Value} : Given args v → Gives args s v s
  | new {vs : List Value} : (∀ v ∈ vs, Given args v) →
      Gives args s (.array s.fresh vs) s.useFresh

/-- The outcome of a built-in function: one that fails has changed nothing. -/
def Outcome (args : List Value) (s : State) : Except Fault Value → State → Prop
  | .ok v, t => Gives args s v t
  | .error _, t => t = s

variable {s : State}

theorem single_eq {args : List Value} {v : Value} (h : single args = .ok v) : args = [v] := by
  unfold single at h
  split at h
  · cases h
    rfl
  · cases h

theorem elements_origin {b : Builtin} {v : Value} {vs : List Value} (h : elements b v = .ok vs) :
    vs = v.parts := by
  cases v with
  | array id ws =>
    cases h
    rfl
  | _ => cases h

theorem length_plain {v w : Value} (h : length v = .ok w) : w.isPlain = true := by
  unfold length at h
  split at h
  all_goals
    cases h
    try rfl

theorem printAll_ends (vs : List Value) (s : State) :
    ∃ t, printAll vs s = some (.ok (), t) ∧ t.scopes = s.scopes ∧ t.fresh = s.fresh := by
  induction vs generalizing s with
  | nil => exact ⟨s, rfl, rfl, rfl⟩
  | cons v vs ih => exact ih (s.printLine v.text)

/-- The functions that look at the elements of one array. -/
theorem outcome_of_elements {b : Builtin} {args : List Value} {next : List Value → Eval Value}
    (gives : ∀ vs, (∀ v ∈ vs, Given args v) → (next vs).After s (Outcome args s)) :
    (do
      let v ← Eval.ofExcept (single args)
      let vs ← Eval.ofExcept (elements b v)
      next vs : Eval Value).After s (Outcome args s) := by
  refine .check (fun v one => .check (fun vs found => gives vs fun u here => ?_) fun _ => rfl)
    fun _ => rfl
  rw [elements_origin found] at here
  exact .inr ⟨v, by simp [single_eq one], here⟩

theorem run_outcome (b : Builtin) (args : List Value) :
    (b.run args).After s (Outcome args s) := by
  have null (t : State) (scopes : t.scopes = s.scopes) (fresh : t.fresh = s.fresh) :
      Gives args s .null t := .plain rfl scopes fresh
  cases b with
  | len =>
    refine .check (fun v one => ?_) fun _ => rfl
    rcases measured : length v with e | w
    · exact .ofExcept rfl
    · exact .ofExcept (.plain (length_plain measured) rfl rfl)
  | first =>
    refine outcome_of_elements fun vs inside => .pure ?_
    cases vs with
    | nil => exact null s rfl rfl
    | cons v vs => exact .given (inside v List.mem_cons_self)
  | last =>
    refine outcome_of_elements fun vs inside => .pure ?_
    rcases final : vs.getLast? with _ | v
    · exact null s rfl rfl
    · exact .given (inside v (List.mem_of_getLast? final))
  | rest =>
    refine outcome_of_elements fun vs inside => ?_
    cases vs with
    | nil => exact .pure (null s rfl rfl)
    | cons v vs => exact .change (.new fun u here => inside u (List.mem_cons_of_mem v here))
  | push =>
    match args with
    | [v, item] =>
      refine .check (fun vs found => .change (.new fun u here => ?_)) fun _ => rfl
      rcases List.mem_append.1 here with old | new
      · exact .inr ⟨v, List.mem_cons_self, elements_origin found ▸ old⟩
      · exact .inl (List.mem_cons_of_mem v new)
    | [] | [_] | _ :: _ :: _ :: _ => exact .fail rfl
  | puts =>
    rcases printAll_ends args s with ⟨t, ends, scopes, fresh⟩
    refine .seq (fun _ t' printed => .pure ?_) fun e t' printed => ?_
    · rw [ends] at printed
      cases printed
      exact null t scopes fresh
    · rw [ends] at printed
      cases printed

theorem call_outcome (b : Builtin) (args : List Value) :
    (b.call args).After s (Outcome args s) :=
  .check (fun _ _ => b.run_outcome args) fun _ => rfl

end Builtin

end Script
