import Script.Proofs.Eval.Origin
import Script.Proofs.Marker.Free

/-!
# Markers and built-in functions

Which arguments make a built-in function show a return marker: in the array it gives, or in the fault
it ends with.
-/

namespace Script

/-- The arguments with which a built-in function would show a marker. -/
def Builtin.exposes : Builtin → List Value → Bool
  | .puts, _ => false
  | .push, [v, item] => v.isReturned || (v.type = .array && item.isReturned)
  | .len, [v] | .first, [v] | .last, [v] | .rest, [v] => v.isReturned
  | _, _ => false

theorem Builtin.elements_cases (b : Builtin) {v : Value} (tidy : v.tidy = true) :
    (∃ vs, elements b v = .ok vs ∧ (∀ u ∈ vs, u.free = true) ∧ v.type = .array) ∨
      (elements b v = .error (.wrongArgument b .array v.type) ∧ v.type ≠ .array) := by
  cases v with
  | array id vs => exact .inl ⟨vs, rfl, freeAll_iff.1 tidy, rfl⟩
  | _ => exact .inr ⟨rfl, by simp [Value.type]⟩

theorem Value.isReturned_of_type {v : Value} {t : ValueType} (h : v.type = t) (other : t ≠ .returned) :
    v.isReturned = false := by
  rw [← Bool.not_eq_true, ← Value.type_eq_returned_iff, h]
  exact other

/-- The call ends and leaves the scopes alone, and a marker shows just when the arguments expose it. -/
def Builtin.Shows (b : Builtin) (args : List Value) (s : State) : Prop :=
  ∃ r s', b.call args s = some (r, s') ∧ s'.scopes = s.scopes ∧
    (Unmarked (fun u => u.free = true) r ↔ b.exposes args = false)

/-- The built-in functions that take one array. -/
theorem Builtin.shows_of_elements {b : Builtin} {v : Value} {s : State}
    {next : List Value → Eval Value} (tidy : v.tidy = true)
    (call : ∀ s, b.call [v] s = (Eval.ofExcept (elements b v) >>= next) s)
    (exposes : b.exposes [v] = v.isReturned)
    (gives : ∀ vs, (∀ u ∈ vs, u.free = true) →
      ∃ u s', next vs s = some (.ok u, s') ∧ s'.scopes = s.scopes ∧ u.free = true) :
    b.Shows [v] s := by
  unfold Shows
  rw [call, exposes]
  rcases elements_cases b tidy with ⟨vs, found, free, array⟩ | ⟨wrong, -⟩
  · rcases gives vs free with ⟨u, s', ends, same, free'⟩
    have plain := Value.isReturned_of_type array (by decide)
    refine ⟨.ok u, s', ?_, same, by simp [Unmarked, free', plain]⟩
    rw [found]
    exact ends
  · refine ⟨.error (.wrongArgument b .array v.type), s, ?_, rfl, ?_⟩
    · rw [wrong]
      rfl
    · simp [Unmarked, Fault.mentions, Value.type_eq_returned_iff]

theorem Builtin.exposes_of_arity {b : Builtin} {args : List Value} {n : Nat}
    (arity : b.arity = some n) (wrong : args.length ≠ n) : b.exposes args = false := by
  cases b with
  | puts => cases arity
  | push =>
    cases arity
    match args with
    | [] | [_] | _ :: _ :: _ :: _ => rfl
    | [_, _] => exact absurd rfl wrong
  | _ =>
    cases arity
    match args with
    | [] | _ :: _ :: _ => rfl
    | [_] => exact absurd rfl wrong

theorem Builtin.shows_of_arity {b : Builtin} {args : List Value} {n : Nat} (arity : b.arity = some n)
    (wrong : args.length ≠ n) (s : State) : b.Shows args s := by
  have silent := exposes_of_arity arity wrong
  refine ⟨.error (.argumentCount args.length n), s, ?_, rfl, ?_⟩
  · simp [call, checkArity, arity, wrong, Eval.bind_apply, Eval.ofExcept]
  · simp [Unmarked, Fault.mentions, silent]

/-- For a function of one argument it is enough to look at that argument. -/
theorem Builtin.shows_single {b : Builtin} {args : List Value} {s : State}
    (arity : b.arity = some 1) (one : ∀ v, args = [v] → b.Shows args s) : b.Shows args s := by
  by_cases single : args.length = 1
  · rcases List.length_eq_one_iff.1 single with ⟨v, only⟩
    exact one v only
  · exact shows_of_arity arity single s

theorem Builtin.length_unmarked_iff (v : Value) :
    Unmarked (fun u => u.free = true) (length v) ↔ v.isReturned = false := by
  cases v <;>
    simp [length, Unmarked, Value.free, Value.isReturned, Value.type, Fault.mentions]

/-- An item is marked or not as it stands at the end of the new array. -/
theorem Builtin.shows_push {v item : Value} (tidy : v.tidy = true) (tidy' : item.tidy = true)
    (s : State) : Builtin.push.Shows [v, item] s := by
  rcases elements_cases .push tidy with ⟨vs, found, free, array⟩ | ⟨wrong, other⟩
  · have plain := Value.isReturned_of_type array (by decide)
    -- The elements that were there are free, so all depends on the item.
    have last : item.free = true ↔ item.isReturned = false :=
      ⟨Value.isReturned_of_free, Value.free_of_tidy tidy'⟩
    refine ⟨.ok (.array s.fresh (vs ++ [item])), s.useFresh, ?_, rfl, ?_⟩
    · have pushed : (Eval.ofExcept (elements .push v) >>= fun vs => Eval.newArray (vs ++ [item])) s =
          some (.ok (.array s.fresh (vs ++ [item])), s.useFresh) := by
        rw [found]
        rfl
      exact pushed
    · have whole : (Value.array s.fresh (vs ++ [item])).free = true ↔ item.free = true := by
        simp only [Value.free, freeAll_iff, List.mem_append, List.mem_singleton]
        exact ⟨fun h => h item (.inr rfl), fun h u hu => hu.elim (free u) fun same => same ▸ h⟩
      simp [Unmarked, exposes, whole, last, plain, array]
  · refine ⟨.error (.wrongArgument .push .array v.type), s, ?_, rfl, ?_⟩
    · have refused : (Eval.ofExcept (elements .push v) >>= fun vs => Eval.newArray (vs ++ [item])) s =
          some (.error (.wrongArgument .push .array v.type), s) := by
        rw [wrong]
        rfl
      exact refused
    · simp [Unmarked, Fault.mentions, exposes, other, Value.type_eq_returned_iff]

/-- Every call of a built-in function ends, and a marker shows just when the arguments expose it. -/
theorem Builtin.shows (b : Builtin) {args : List Value} (tidy : ∀ v ∈ args, v.tidy = true)
    (s : State) : b.Shows args s := by
  cases b with
  | len =>
    refine shows_single rfl ?_
    rintro v rfl
    exact ⟨length v, s, rfl, rfl, length_unmarked_iff v⟩
  | first =>
    refine shows_single rfl ?_
    rintro v rfl
    refine shows_of_elements (tidy v List.mem_cons_self) (fun _ => rfl) rfl fun vs free => ?_
    refine ⟨_, s, rfl, rfl, ?_⟩
    cases vs with
    | nil => rfl
    | cons u vs => exact free u List.mem_cons_self
  | last =>
    refine shows_single rfl ?_
    rintro v rfl
    refine shows_of_elements (tidy v List.mem_cons_self) (fun _ => rfl) rfl fun vs free => ?_
    refine ⟨_, s, rfl, rfl, ?_⟩
    rcases final : vs.getLast? with _ | u
    · rfl
    · exact free u (List.mem_of_getLast? final)
  | rest =>
    refine shows_single rfl ?_
    rintro v rfl
    refine shows_of_elements (tidy v List.mem_cons_self) (fun _ => rfl) rfl fun vs free => ?_
    cases vs with
    | nil => exact ⟨_, s, rfl, rfl, rfl⟩
    | cons u vs =>
      refine ⟨_, s.useFresh, rfl, rfl, ?_⟩
      exact freeAll_iff.2 fun w hw => free w (List.mem_cons_of_mem u hw)
  | push =>
    match args with
    | [v, item] => exact shows_push (tidy v (by simp)) (tidy item (by simp)) s
    | [] | [_] | _ :: _ :: _ :: _ => exact shows_of_arity rfl (by simp) s
  | puts =>
    rcases printAll_ends args s with ⟨s', ends, same, -⟩
    refine ⟨.ok .null, s', ?_, same, by simp [Unmarked, Value.free, exposes]⟩
    have printed : (printAll args >>= fun _ => Pure.pure Value.null) s = some (.ok .null, s') := by
      rw [Eval.bind_apply, ends]
      rfl
    exact printed

end Script
