import Script.Eval.Operator
import Script.Proofs.Sameness.Run

/-!
# The notions of sameness agree

There are four of them: two values may be alike, they may be identical, they may be the same key, and
the operators `==` and `!=` may take them for equal. The operators ask whether the values are identical,
but refuse to compare strings. Identical values of one session are alike, and on values that can be
keys all notions are one.

The order of the language reads the same from both sides: `<` with swapped operands is `>`, down to
the faults.

Main statement: `samenessAgrees`.
-/

namespace Script

/-! ## Operators from the other side -/

/-- The comparison that asks the same of swapped operands. -/
def BinaryOp.mirrored : BinaryOp → BinaryOp
  | .less => .greater
  | .greater => .less
  | op => op

/-- The fault with the types of the operands swapped and the operator mirrored. -/
def Fault.mirrored : Fault → Fault
  | .unknownBinary left op right => .unknownBinary right op.mirrored left
  | .typeMismatch left op right => .typeMismatch right op.mirrored left
  | e => e

namespace BinaryOp

variable {v w : Value}

/-- An operator meets two integers, two strings, or others. -/
theorem operands (v w : Value) :
    (∃ m n, v = .int m ∧ w = .int n) ∨ (∃ s t, v = .str s ∧ w = .str t) ∨
      ¬ (v.type = .int ∧ w.type = .int) ∧ ¬ (v.type = .str ∧ w.type = .str) := by
  cases v <;> cases w <;> simp [Value.type]

theorem apply_of_others (op : BinaryOp) (numbers : ¬ (v.type = .int ∧ w.type = .int))
    (texts : ¬ (v.type = .str ∧ w.type = .str)) : op.apply v w = op.onOthers v w := by
  unfold apply
  split
  · exact absurd ⟨rfl, rfl⟩ numbers
  · exact absurd ⟨rfl, rfl⟩ texts
  · exact absurd ⟨rfl, rfl⟩ texts
  · rfl

/-- Two strings are not compared, whether they are the same or not. -/
theorem equality_of_texts (left : v.type = .str) (right : w.type = .str) :
    equal.apply v w = .error (.unknownBinary .str .equal .str) ∧
      notEqual.apply v w = .error (.unknownBinary .str .notEqual .str) := by
  cases v <;> cases left
  cases w <;> cases right
  exact ⟨rfl, rfl⟩

/-- All others are asked whether they are identical. -/
theorem equality_of_others (texts : ¬ (v.type = .str ∧ w.type = .str)) :
    equal.apply v w = .ok (.bool (v.identical w)) ∧
      notEqual.apply v w = .ok (.bool !v.identical w) := by
  rcases operands v w with ⟨m, n, rfl, rfl⟩ | ⟨s, t, rfl, rfl⟩ | ⟨numbers, -⟩
  · refine ⟨rfl, ?_⟩
    simp [apply, onInts, Value.identical]
  · exact absurd ⟨rfl, rfl⟩ texts
  · rw [apply_of_others _ numbers texts, apply_of_others _ numbers texts]
    exact ⟨rfl, rfl⟩

theorem equality_comm (v w : Value) :
    equal.apply w v = equal.apply v w ∧ notEqual.apply w v = notEqual.apply v w := by
  by_cases texts : v.type = .str ∧ w.type = .str
  · rcases equality_of_texts texts.1 texts.2 with ⟨eq, ne⟩
    rcases equality_of_texts texts.2 texts.1 with ⟨eq', ne'⟩
    exact ⟨eq'.trans eq.symm, ne'.trans ne.symm⟩
  · rcases equality_of_others texts with ⟨eq, ne⟩
    rcases equality_of_others (fun h => texts h.symm) with ⟨eq', ne'⟩
    rw [eq, ne, eq', ne', Value.identical_comm]
    exact ⟨rfl, rfl⟩

theorem greater_eq_less (v w : Value) :
    greater.apply w v = (less.apply v w).mapError Fault.mirrored := by
  rcases operands v w with ⟨m, n, rfl, rfl⟩ | ⟨s, t, rfl, rfl⟩ | ⟨numbers, texts⟩
  · rfl
  · rfl
  · rw [apply_of_others _ numbers texts,
      apply_of_others _ (fun h => numbers h.symm) (fun h => texts h.symm)]
    by_cases same : v.type = w.type
    · simp [onOthers, same, Except.mapError, Fault.mirrored, mirrored]
    · have other : w.type ≠ v.type := fun h => same h.symm
      simp [onOthers, same, other, Except.mapError, Fault.mirrored, mirrored]

end BinaryOp

/-! ## All notions -/

structure SamenessAgrees : Prop where
  /-- To be alike is reflexive, symmetric and transitive. -/
  alike : Equivalence fun v w : Value => v.alike w = true
  identical_symm : ∀ v w : Value, v.identical w = true → w.identical v = true
  identical_trans : ∀ u v w : Value, u.identical v = true → v.identical w = true →
    u.identical w = true
  /-- All values are identical to themselves but marked ones and faults. -/
  identical_self : ∀ v : Value, v.identical v = true ↔ v.isReturned = false ∧ v.isError = false
  /-- Identical values of one session are one value, and so they are alike. -/
  identical_alike : ∀ programs v w, ComesUp programs v → ComesUp programs w →
    v.identical w = true → v = w ∧ v.alike w = true
  /-- Values that can be keys are alike if and only if they are identical, and if and only if they are
  the same key. -/
  keys : ∀ v w : Value, v.key?.isSome → w.key?.isSome →
    (v.identical w = true ↔ v.key? = w.key?) ∧ (v.alike w = true ↔ v.key? = w.key?)
  /-- A key that is kept as a word is the same as another key if the types and the words agree. -/
  words : ∀ (v w : Value) (j k : Key), v.key? = some j → w.key? = some k → j.word?.isSome →
    (v.key? = w.key? ↔ v.type = w.type ∧ j.word? = k.word?)
  /-- A value that cannot be a key is not alike to one that can. -/
  unusable : ∀ v w : Value, v.key? = none → w.key?.isSome → v.alike w = false ∧ w.alike v = false
  /-- Hashes that have been filled by insertions have the same index and entries that are alike, place
  by place, if and only if they are alike as values. -/
  hashes : ∀ (items items' : List (Key × Value)) (h h' : IndexedTable Key (Value × Value))
    (id id' : ObjectId), IndexedTable.empty.insertAll? (items.map entryOf) = some h →
    IndexedTable.empty.insertAll? (items'.map entryOf) = some h' →
    (h.Same h' ↔ (Value.hash id (Table.insertAll [] items)).alike
      (.hash id' (Table.insertAll [] items')) = true)
  /-- The operators `==` and `!=` fail on two strings. -/
  texts : ∀ v w : Value, v.type = .str → w.type = .str →
    BinaryOp.equal.apply v w = .error (.unknownBinary .str .equal .str) ∧
      BinaryOp.notEqual.apply v w = .error (.unknownBinary .str .notEqual .str)
  /-- On all other values they do not fail and give opposite answers. -/
  opposite : ∀ v w : Value, ¬ (v.type = .str ∧ w.type = .str) →
    BinaryOp.equal.apply v w = .ok (.bool (v.identical w)) ∧
      BinaryOp.notEqual.apply v w = .ok (.bool !v.identical w)
  /-- With swapped operands they do the same. -/
  swapped : ∀ v w : Value, BinaryOp.equal.apply w v = BinaryOp.equal.apply v w ∧
    BinaryOp.notEqual.apply w v = BinaryOp.notEqual.apply v w
  /-- What `<` does is what `>` does with swapped operands; a fault names the other operator and the
  types in the other order. -/
  mirrored : ∀ v w : Value,
    BinaryOp.greater.apply w v = (BinaryOp.less.apply v w).mapError Fault.mirrored

theorem samenessAgrees : SamenessAgrees := by
  constructor
  case alike =>
    exact ⟨Value.alike_refl, fun same => Value.alike_comm _ _ ▸ same, Value.alike_trans⟩
  case identical_symm => exact fun v w same => Value.identical_comm v w ▸ same
  case identical_trans => exact fun u v w => Value.identical_trans
  case identical_self => exact fun v => Value.identical_self_iff
  case identical_alike =>
    intro programs v w up up' same
    have one := up.eq_of_identical up' same
    exact ⟨one, one ▸ Value.alike_refl v⟩
  case keys =>
    exact fun v w left right =>
      ⟨Value.identical_iff_key?_eq left right, Value.alike_iff_key?_eq left⟩
  case words =>
    intro v w j k left right words
    rw [left, right, Option.some.injEq, ← Value.toValue_of_key? left, ← Value.toValue_of_key? right]
    exact Key.eq_iff_word?_eq words
  case unusable =>
    intro v w none some
    have unlike : ¬ v.alike w = true := by
      intro alike
      rw [← Value.key?_of_alike alike, none] at some
      cases some
    exact ⟨Bool.eq_false_iff.2 unlike, Bool.eq_false_iff.2 (Value.alike_comm v w ▸ unlike)⟩
  case hashes =>
    intro items items' h h' id id' filled filled'
    have follows {items : List (Key × Value)} {h : IndexedTable Key (Value × Value)}
        (filled : IndexedTable.empty.insertAll? (items.map entryOf) = some h) :
        h.Follows ((Table.insertAll [] items).map entryOf) := by
      rcases IndexedTable.Follows.empty.insertAll? (items.map entryOf) with ⟨g, filled', follows⟩
      cases filled.symm.trans filled'
      exact insertAll_map_entryOf [] items ▸ follows
    rw [(follows filled).same_iff (follows filled'), Value.alike]
  case texts => exact fun v w => BinaryOp.equality_of_texts
  case opposite => exact fun v w => BinaryOp.equality_of_others
  case swapped => exact BinaryOp.equality_comm
  case mirrored => exact BinaryOp.greater_eq_less

/-- For example, `[1] == [1]` makes two arrays. They are alike but not identical, so the answer is
`false`; each of them is identical to itself, and so they are alike to themselves as well. -/
theorem samenessAgrees_arrays :
    let e : Expr := .array [.int 1]
    let programs : List Program := [[.expr (.binary .equal e e)]]
    let v : Value := .array 0 [.int 1]
    let w : Value := .array 1 [.int 1]
    ComesUp programs v ∧ ComesUp programs w ∧ v.alike w = true ∧
      BinaryOp.equal.apply v w = .ok (.bool false) ∧ v.identical v = true ∧ v.alike v = true := by
  intro e programs v w
  have runs : Runs programs [.expr (.binary .equal e e)] .initial := ⟨[], [], rfl, .nil⟩
  have met : Meets programs (.expr State.root (.binary .equal e e)) .initial :=
    ⟨_, _, runs, .step .body (.step .statement (.step .expr (.refl _ _)))⟩
  have left : Ends (.expr State.root e) .initial (.ok v) State.initial.useFresh := ⟨2, rfl⟩
  have right : Ends (.expr State.root e) State.initial.useFresh (.ok w) _ := ⟨2, rfl⟩
  have first : ComesUp programs v :=
    .given (met.reaches (.step .left (.refl _ _))) left List.mem_cons_self
  have second : ComesUp programs w :=
    .given (met.reaches (.step (.right left) (.refl _ _))) right List.mem_cons_self
  have self : v.identical v = true := (samenessAgrees.identical_self v).2 ⟨rfl, rfl⟩
  have same : v.alike w = true := (Value.alike_iff v w).2 rfl
  have different := (samenessAgrees.opposite v w nofun).1
  exact ⟨first, second, same, different, self,
    (samenessAgrees.identical_alike programs v v first first self).2⟩

end Script
