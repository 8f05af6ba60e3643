import Mathlib.Algebra.Group.Int.Defs
import Mathlib.Algebra.Group.Nat.Defs
import Script.Eval.Expr
import Script.Proofs.Eval.Objects

/-!
# Arrays as lists

Indexing and the built-in functions on arrays go together as those of a list do: `len` counts the
positions at which there is an element, `push` puts one behind the last, `first`, `last` and `rest` take
an array apart. Positions are integers of the language, so they may be negative, and the position
behind the greatest one is the least.

There is one array for which `len` cannot count on, the one with `2 ^ 63 - 1` elements: with one more
the count stays.

Main statement: `arraysAreLists`.
-/

namespace Script

/-! ## Integers as positions -/

namespace Integer

variable {i : Int64} {k : Nat}

/-- An integer that is not negative addresses the position it counts. -/
theorem toIndex?_of_toInt (counts : i.toInt = k) : toIndex? i = some k := by
  have nonneg : ¬ i < 0 := by
    rw [Int64.lt_iff_toInt_lt, Int64.toInt_zero]
    omega
  rw [toIndex?, if_neg nonneg, ← Int64.toNat_toInt, counts, Int.toNat_natCast]

theorem toIndex?_of_neg (negative : i.toInt < 0) : toIndex? i = none := by
  have below : i < 0 := by
    rw [Int64.lt_iff_toInt_lt, Int64.toInt_zero]
    exact negative
  rw [toIndex?, if_pos below]

/-- Every integer is negative or counts a position. -/
theorem neg_or_counts (i : Int64) : i.toInt < 0 ∨ ∃ k : Nat, i.toInt = k := by
  by_cases negative : i.toInt < 0
  · exact .inl negative
  · exact .inr (Int.eq_ofNat_of_zero_le (Int.not_lt.1 negative))

theorem toInt_ofLength (short : k < 2 ^ 63) : (ofLength k).toInt = k := by
  have top : greatest.toNat = 2 ^ 63 - 1 := rfl
  rw [ofLength, Nat.min_eq_left (by omega), Int64.toInt_ofNat_of_lt short]

/-- A count above the greatest integer stops there. -/
theorem ofLength_eq_maxValue (long : 2 ^ 63 ≤ k + 1) : ofLength k = Int64.maxValue := by
  have top : greatest.toNat = 2 ^ 63 - 1 := rfl
  rw [ofLength, Nat.min_eq_right (by omega), top]
  rfl

theorem ne_maxValue_iff : i ≠ Int64.maxValue ↔ i.toInt + 1 < 2 ^ 63 := by
  have upper := i.toInt_lt
  rw [ne_eq, ← Int64.toInt_inj, Int64.toInt_maxValue]
  omega

theorem toInt_add_one (room : i ≠ Int64.maxValue) : (i + 1).toInt = i.toInt + 1 := by
  have lower := i.le_toInt
  have upper := ne_maxValue_iff.1 room
  rw [Int64.toInt_add, Int64.toInt_one, Int.bmod_eq_of_le (by omega) (by omega)]

theorem toInt_sub_one (positive : 0 < i.toInt) : (i - 1).toInt = i.toInt - 1 := by
  have upper := i.toInt_lt
  rw [Int64.toInt_sub, Int64.toInt_one, Int.bmod_eq_of_le (by omega) (by omega)]

/-- The integer behind the greatest one is the least. -/
theorem toInt_maxValue_add_one : (Int64.maxValue + 1).toInt < 0 := by decide

end Integer

/-! ## Indexing -/

variable {id : ObjectId} {xs : List Value} {i n : Int64} {k : Nat}

theorem Value.elementAt_of_toInt (counts : i.toInt = k) :
    (array id xs).elementAt (.int i) = .ok (xs[k]?.getD .null) := by
  rw [elementAt, Integer.toIndex?_of_toInt counts]
  rfl

theorem Value.elementAt_of_neg (negative : i.toInt < 0) :
    (array id xs).elementAt (.int i) = .ok .null := by
  rw [elementAt, Integer.toIndex?_of_neg negative]
  rfl

/-- What is found at a position depends on the elements alone. -/
theorem Value.elementAt_congr (id id' : ObjectId) (xs : List Value) (i : Value) :
    (array id xs).elementAt i = (array id' xs).elementAt i := by
  cases i <;> rfl

/-- `v` is the element at the position `i`. -/
def IsElement (xs : List Value) (i : Int64) (v : Value) : Prop :=
  0 ≤ i ∧ xs[i.toInt.toNat]? = some v

theorem exists_isElement_iff (length : n.toInt = xs.length) :
    (∃ v, IsElement xs i v) ↔ 0 ≤ i ∧ i < n := by
  have inside : (∃ v, xs[i.toInt.toNat]? = some v) ↔ i.toInt.toNat < xs.length := by
    simp [List.getElem?_eq_some_iff]
  simp only [IsElement, exists_and_left, inside, Int64.le_iff_toInt_le, Int64.lt_iff_toInt_lt,
    Int64.toInt_zero]
  omega

theorem IsElement.elementAt {v : Value} (element : IsElement xs i v) :
    (Value.array id xs).elementAt (.int i) = .ok v := by
  rcases element with ⟨nonneg, there⟩
  rw [Int64.le_iff_toInt_le, Int64.toInt_zero] at nonneg
  rw [Value.elementAt_of_toInt (Int.toNat_of_nonneg nonneg).symm, there]
  rfl

theorem elementAt_outside (length : n.toInt = xs.length) (outside : ¬ (0 ≤ i ∧ i < n)) :
    (Value.array id xs).elementAt (.int i) = .ok .null := by
  rw [Int64.le_iff_toInt_le, Int64.lt_iff_toInt_lt, Int64.toInt_zero, length] at outside
  rcases Integer.neg_or_counts i with negative | ⟨k, counts⟩
  · exact Value.elementAt_of_neg negative
  · rw [Value.elementAt_of_toInt counts, List.getElem?_eq_none (by omega)]
    rfl

/-! ## Calls of built-in functions -/

namespace Builtin

variable {b : Builtin} {args : List Value} {s : State}

/-- The table refuses arguments of which there are not as many as it says. -/
theorem checkArity_eq {want : Nat} (takes : b.arity = some want) (count : Nat) :
    b.checkArity count = if count = want then .ok () else .error (.argumentCount count want) := by
  rw [checkArity, takes]

theorem single_of_length_ne (wrong : args.length ≠ 1) :
    single args = .error (.argumentCount args.length 1) := by
  match args with
  | [_] => exact absurd rfl wrong
  | [] | _ :: _ :: _ => rfl

theorem run_push_of_length_ne (wrong : args.length ≠ 2) :
    push.run args = Eval.fail (.argumentCount args.length 2) := by
  match args with
  | [_, _] => exact absurd rfl wrong
  | [] | [_] | _ :: _ :: _ :: _ => rfl

/-- With another number of arguments than the table says, the function itself fails, with the same
fault. -/
theorem run_of_length_ne {want : Nat} (takes : b.arity = some want) (wrong : args.length ≠ want) :
    b.run args = Eval.fail (.argumentCount args.length want) := by
  cases b with
  | puts => cases takes
  | push =>
    cases takes
    exact run_push_of_length_ne wrong
  | len | first | last | rest =>
    cases takes
    rw [run, single_of_length_ne wrong]
    rfl

theorem call_eq_run (b : Builtin) (args : List Value) : b.call args = b.run args := by
  cases takes : b.arity with
  | none =>
    rw [call, checkArity, takes]
    rfl
  | some want =>
    rw [call, checkArity_eq takes]
    by_cases fits : args.length = want
    · rw [if_pos fits]
      rfl
    · rw [if_neg fits, run_of_length_ne takes fits]
      rfl

/-- A function complains of the number of its arguments only where the table does. -/
theorem checkArity_of_run {got want : Nat} {t : State}
    (fails : b.run args s = some (.error (.argumentCount got want), t)) :
    b.checkArity args.length = .error (.argumentCount got want) := by
  have wrong {takes : Nat} (arity : b.arity = some takes) (ne : args.length ≠ takes) :
      b.checkArity args.length = .error (.argumentCount got want) := by
    rw [run_of_length_ne arity ne] at fails
    rw [checkArity_eq arity, if_neg ne]
    cases fails
    rfl
  cases b with
  | puts =>
    rcases printAll_ends args s with ⟨u, printed, -⟩
    cases (Eval.of_bind_ok fails printed)
  | push =>
    match args with
    | [v, _] => cases v <;> cases fails
    | [] | [_] | _ :: _ :: _ :: _ => exact wrong rfl (by simp)
  | len | first | last | rest =>
    match args with
    | [v] =>
      cases v with
      | array _ vs => cases vs <;> cases fails
      | _ => cases fails
    | [] | _ :: _ :: _ => exact wrong rfl (by simp)

/-! ### On an array -/

variable {v : Value}

theorem call_len : len.call [.array id xs] s = some (.ok (.int (Integer.ofLength xs.length)), s) :=
  rfl

theorem call_push :
    push.call [.array id xs, v] s = some (.ok (.array s.fresh (xs ++ [v])), s.useFresh) :=
  rfl

theorem call_first : first.call [.array id xs] s = some (.ok (xs.head?.getD .null), s) :=
  rfl

theorem call_last : last.call [.array id xs] s = some (.ok (xs.getLast?.getD .null), s) :=
  rfl

theorem call_rest : rest.call [.array id (v :: xs)] s = some (.ok (.array s.fresh xs), s.useFresh) :=
  rfl

end Builtin

/-! ## The laws of lists -/

/-- `v` is an object that was not there in `s`. -/
def Value.IsNew (v : Value) (s : State) : Prop :=
  ∃ i, v.object? = some i ∧ s.fresh ≤ i

/-- The values have the same elements, and the same is found at each position of them. -/
def Value.SameElements (v w : Value) : Prop :=
  v.parts = w.parts ∧ ∀ i : Int64, v.elementAt (.int i) = w.elementAt (.int i)

/-- `push` has made `ys` from the array `xs` with `n` elements and from `v`, and left `t`. -/
structure PushLaws (xs : Value) (n : Int64) (v ys : Value) (s t : State) : Prop where
  new : ys.IsNew s ∧ ys.identical xs = false
  before : ∀ i, 0 ≤ i → i < n → ys.elementAt (.int i) = xs.elementAt (.int i)
  last : ys.elementAt (.int n) = .ok v
  /-- There is one element more. Only from the greatest integer `len` does not count on. -/
  len : ∃ m, Builtin.len.call [ys] t = some (.ok (.int m), t) ∧
    (n ≠ Int64.maxValue → m = n + 1) ∧ (n = Int64.maxValue → m = n)

/-- `rest` has made `ys` from the array `xs` with `n` elements, and left `t`. -/
structure RestLaws (xs : Value) (n : Int64) (ys : Value) (s t : State) : Prop where
  new : ys.IsNew s ∧ ys.identical xs = false
  /-- Elements move down by one position; the one behind the greatest position is negative. -/
  behind : ∀ i, 0 ≤ i → ys.elementAt (.int i) = xs.elementAt (.int (i + 1))
  len : Builtin.len.call [ys] t = some (.ok (.int (n - 1)), t)

/-- Called in `s`, the built-in functions treat the array as the list of its `n` elements. -/
structure ListLaws (id : ObjectId) (xs : List Value) (n : Int64) (s : State) : Prop where
  len : Builtin.len.call [.array id xs] s = some (.ok (.int n), s) ∧ n.toInt = xs.length
  /-- There is an element from the position 0 on up to the length, and nowhere else. -/
  positions : ∀ i, (∃ v, IsElement xs i v) ↔ 0 ≤ i ∧ i < n
  /-- Indexing finds the very element, -/
  element : ∀ i v, IsElement xs i v → (Value.array id xs).elementAt (.int i) = .ok v
  /-- and `null` where there is none. -/
  outside : ∀ i, ¬ (0 ≤ i ∧ i < n) → (Value.array id xs).elementAt (.int i) = .ok .null
  push : ∀ v, ∃ ys t, Builtin.push.call [.array id xs, v] s = some (.ok ys, t) ∧
    PushLaws (.array id xs) n v ys s t
  first : xs ≠ [] → ∃ v, Builtin.first.call [.array id xs] s = some (.ok v, s) ∧
    (Value.array id xs).elementAt (.int 0) = .ok v
  last : xs ≠ [] → ∃ v, Builtin.last.call [.array id xs] s = some (.ok v, s) ∧
    (Value.array id xs).elementAt (.int (n - 1)) = .ok v
  rest : xs ≠ [] → ∃ ys t, Builtin.rest.call [.array id xs] s = some (.ok ys, t) ∧
    RestLaws (.array id xs) n ys s t
  /-- It does not matter whether the first element is taken off before another one is put on or
  behind that. -/
  rest_push : ∀ v ys zs t u, Builtin.push.call [.array id xs, v] s = some (.ok ys, t) →
    Builtin.rest.call [.array id xs] s = some (.ok zs, u) → xs ≠ [] →
    ∃ p q t' u', Builtin.rest.call [ys] t = some (.ok p, t') ∧
      Builtin.push.call [zs, v] u = some (.ok q, u') ∧ p.SameElements q
  empty : xs = [] → ∀ b ∈ [Builtin.first, .last, .rest],
    b.call [.array id xs] s = some (.ok .null, s)

/-- The table of built-in functions and the function agree on the number of arguments. -/
structure ChecksAgree (b : Builtin) (args : List Value) : Prop where
  /-- A call gives what the function itself gives, value or fault. -/
  call : b.call args = b.run args
  /-- What the table refuses the function refuses, with the same fault, -/
  refused : ∀ e, b.checkArity args.length = .error e → b.run args = Eval.fail e
  /-- and it complains of the number of arguments only then. -/
  complains : ∀ got want s t, b.run args s = some (.error (.argumentCount got want), t) →
    b.checkArity args.length = .error (.argumentCount got want)

section

variable {s : State} {v w : Value}

/-- A new object is not one that was there. -/
theorem array_new (made : id < s.fresh) (ys : List Value) :
    (Value.array s.fresh ys).IsNew s ∧ (Value.array s.fresh ys).identical (.array id xs) = false :=
  ⟨⟨s.fresh, rfl, Nat.le_refl _⟩, decide_eq_false (Nat.ne_of_gt made)⟩

theorem pushLaws (made : id < s.fresh) (short : xs.length < 2 ^ 63) (length : n.toInt = xs.length)
    (v : Value) :
    PushLaws (.array id xs) n v (.array s.fresh (xs ++ [v])) s s.useFresh where
  new := array_new made _
  before i nonneg below := by
    rw [Int64.lt_iff_toInt_lt, length] at below
    rcases Integer.neg_or_counts i with negative | ⟨k, counts⟩
    · rw [Value.elementAt_of_neg negative, Value.elementAt_of_neg negative]
    · rw [Value.elementAt_of_toInt counts, Value.elementAt_of_toInt counts,
        List.getElem?_append_left (by omega)]
  last := by
    rw [Value.elementAt_of_toInt length, List.getElem?_concat_length]
    rfl
  len := by
    refine ⟨_, Builtin.call_len, fun room => ?_, fun full => ?_⟩
    · have upper := Integer.ne_maxValue_iff.1 room
      rw [← Int64.toInt_inj, Integer.toInt_add_one room, length, List.length_append,
        Integer.toInt_ofLength (by simp; omega)]
      rfl
    · have most : (xs.length : Int) = 2 ^ 63 - 1 := length ▸ full ▸ Int64.toInt_maxValue
      rw [full, List.length_append, Integer.ofLength_eq_maxValue (by simp; omega)]

theorem restLaws (made : id < s.fresh) (short : (v :: xs).length < 2 ^ 63)
    (length : n.toInt = (v :: xs).length) :
    RestLaws (.array id (v :: xs)) n (.array s.fresh xs) s s.useFresh where
  new := array_new made _
  behind i nonneg := by
    rcases Integer.neg_or_counts i with negative | ⟨k, counts⟩
    · rw [Int64.le_iff_toInt_le, Int64.toInt_zero] at nonneg
      omega
    · rw [Value.elementAt_of_toInt counts]
      by_cases greatest : i = Int64.maxValue
      -- There is no element at the greatest position, and none at a negative one.
      · have top : i.toInt = 2 ^ 63 - 1 := greatest ▸ Int64.toInt_maxValue
        rw [greatest, Value.elementAt_of_neg Integer.toInt_maxValue_add_one,
          List.getElem?_eq_none (by simp only [List.length_cons] at short; omega)]
        rfl
      · have next : (i + 1).toInt = (k + 1 : Nat) := by
          rw [Integer.toInt_add_one greatest, counts]
          rfl
        rw [Value.elementAt_of_toInt next, List.getElem?_cons_succ]
  len := by
    have positive : 0 < n.toInt := by
      rw [length]
      exact Int.natCast_pos.2 (Nat.succ_pos _)
    have count : Integer.ofLength xs.length = n - 1 := by
      rw [← Int64.toInt_inj, Integer.toInt_sub_one positive, length, List.length_cons,
        Integer.toInt_ofLength (Nat.lt_of_succ_lt short), Int.natCast_succ, Int.add_sub_cancel]
    rw [Builtin.call_len, count]

end

structure ArraysAreLists : Prop where
  /-- The laws hold for every array that has been made and has fewer than `2 ^ 63` elements. -/
  laws : ∀ (id : ObjectId) (xs : List Value) (s : State), id < s.fresh → xs.length < 2 ^ 63 →
    ∃ n, ListLaws id xs n s
  checks : ∀ (b : Builtin) (args : List Value), ChecksAgree b args

theorem Builtin.checksAgree (b : Builtin) (args : List Value) : ChecksAgree b args where
  call := b.call_eq_run args
  refused e check := by
    cases takes : b.arity with
    | none =>
      rw [checkArity, takes] at check
      cases check
    | some want =>
      rw [checkArity_eq takes] at check
      split at check
      · cases check
      · rename_i wrong
        cases check
        exact run_of_length_ne takes wrong
  complains _ _ _ _ := checkArity_of_run

theorem listLaws {s : State} (made : id < s.fresh) (short : xs.length < 2 ^ 63) :
    ListLaws id xs (Integer.ofLength xs.length) s := by
  have length := Integer.toInt_ofLength short
  constructor
  case len => exact ⟨Builtin.call_len, length⟩
  case positions => exact fun i => exists_isElement_iff length
  case element => exact fun i v element => element.elementAt
  case outside => exact fun i outside => elementAt_outside length outside
  case push => exact fun v => ⟨_, _, Builtin.call_push, pushLaws made short length v⟩
  case first =>
    intro some
    refine ⟨_, Builtin.call_first, ?_⟩
    rw [Value.elementAt_of_toInt (k := 0) rfl, List.head?_eq_getElem?]
  case last =>
    intro some
    have positive := List.length_pos_iff.2 some
    refine ⟨_, Builtin.call_last, ?_⟩
    have place : (Integer.ofLength xs.length - 1).toInt = (xs.length - 1 : Nat) := by
      rw [Integer.toInt_sub_one (by omega), length]
      omega
    rw [Value.elementAt_of_toInt place, List.getLast?_eq_getElem?]
  case rest =>
    intro some
    rcases List.exists_cons_of_ne_nil some with ⟨x, xs, rfl⟩
    exact ⟨_, _, Builtin.call_rest, restLaws made short length⟩
  case rest_push =>
    intro v ys zs t u pushed rested some
    rcases List.exists_cons_of_ne_nil some with ⟨x, xs, rfl⟩
    cases pushed
    cases rested
    exact ⟨_, _, _, _, Builtin.call_rest, Builtin.call_push, rfl,
      fun i => Value.elementAt_congr _ _ _ _⟩
  case empty =>
    rintro rfl b one
    simp only [List.mem_cons, List.not_mem_nil, or_false] at one
    rcases one with rfl | rfl | rfl <;> rfl

/-- Indexing and the built-in functions on arrays are those of lists. -/
theorem arraysAreLists : ArraysAreLists where
  laws _ _ _ made short := ⟨_, listLaws made short⟩
  checks := Builtin.checksAgree

/-- For example, `[1, 2]` has its last element at the position 1, and none at 2 or -1. -/
theorem arraysAreLists_two :
    let s := State.initial.useFresh
    let xs : Value := .array 0 [.int 1, .int 2]
    ∃ n, ListLaws 0 [.int 1, .int 2] n s ∧ n = 2 ∧
      Builtin.last.call [xs] s = some (.ok (.int 2), s) ∧ xs.elementAt (.int 1) = .ok (.int 2) ∧
      xs.elementAt (.int 2) = .ok .null ∧ xs.elementAt (.int (-1)) = .ok .null := by
  intro s xs
  rcases arraysAreLists.laws 0 [.int 1, .int 2] s Nat.one_pos (by decide) with ⟨n, laws⟩
  have two : n = 2 := Int64.toInt_inj.1 laws.len.2
  subst two
  have last : IsElement [.int 1, .int 2] 1 (.int 2) := ⟨by decide, rfl⟩
  exact ⟨2, laws, rfl, rfl, laws.element 1 _ last, laws.outside 2 (by decide),
    laws.outside (-1) (by decide)⟩

end Script
