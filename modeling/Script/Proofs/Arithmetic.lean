import Mathlib.Data.Int.ModEq
import Script.Eval.Operator

/-!
# Integer arithmetic

Sums, differences, products and negatives of integers are exact up to multiples of `2 ^ 64`, and only
one integer is. Quotients are exact, rounded toward zero, but for the one that is too large; the only
operation that fails is division by zero. What a division leaves is smaller than the divisor and has the
sign of the dividend, even where the quotient has wrapped around.

Main statement: `integerArithmetic`.
-/

namespace Script

/-! ## Wrapping around -/

/-- The integer is `n` up to a multiple of `2 ^ 64`. -/
def Wraps (n : Int) (c : Int64) : Prop :=
  c.toInt ≡ n [ZMOD 2 ^ 64]

namespace Wraps

variable {m n : Int} {a b c d : Int64}

/-- No two integers are that far apart. -/
theorem unique (first : Wraps n c) (second : Wraps n d) : c = d := by
  have apart := (first.trans second.symm).dvd
  have lower := c.le_toInt
  have upper := c.toInt_lt
  have lower' := d.le_toInt
  have upper' := d.toInt_lt
  rw [← Int64.toInt_inj]
  omega

theorem exact (c : Int64) : Wraps c.toInt c :=
  Int.ModEq.refl c.toInt

/-- A number that is in range is not changed. -/
theorem toInt_eq (wraps : Wraps n c) (lower : -2 ^ 63 ≤ n) (upper : n < 2 ^ 63) : c.toInt = n := by
  have apart := wraps.dvd
  have lower' := c.le_toInt
  have upper' := c.toInt_lt
  omega

theorem add (left : Wraps m a) (right : Wraps n b) : Wraps (m + n) (a + b) := by
  have whole : (a + b).toInt ≡ a.toInt + b.toInt [ZMOD 2 ^ 64] := by
    rw [Int64.toInt_add]
    exact Int.bmod_emod
  exact whole.trans (Int.ModEq.add left right)

theorem sub (left : Wraps m a) (right : Wraps n b) : Wraps (m - n) (a - b) := by
  have whole : (a - b).toInt ≡ a.toInt - b.toInt [ZMOD 2 ^ 64] := by
    rw [Int64.toInt_sub]
    exact Int.bmod_emod
  exact whole.trans (Int.ModEq.sub left right)

theorem mul (left : Wraps m a) (right : Wraps n b) : Wraps (m * n) (a * b) := by
  have whole : (a * b).toInt ≡ a.toInt * b.toInt [ZMOD 2 ^ 64] := by
    rw [Int64.toInt_mul]
    exact Int.bmod_emod
  exact whole.trans (Int.ModEq.mul left right)

theorem neg (wraps : Wraps n a) : Wraps (-n) (-a) := by
  have whole : (-a).toInt ≡ -a.toInt [ZMOD 2 ^ 64] := by
    rw [Int64.toInt_neg]
    exact Int.bmod_emod
  exact whole.trans (Int.ModEq.neg wraps)

theorem div (a b : Int64) : Wraps (a.toInt.tdiv b.toInt) (a / b) := by
  rw [Wraps, Int64.toInt_div]
  exact Int.bmod_emod

end Wraps

/-! ## Division -/

namespace Integer

variable {a b : Int64}

theorem toInt_ne_zero (some : b ≠ 0) : b.toInt ≠ 0 := by
  rw [← Int64.toInt_zero]
  exact fun same => some (Int64.toInt_inj.1 same)

/-- Only one quotient is out of range. -/
theorem toInt_div (other : ¬ (a = Int64.minValue ∧ b = -1)) :
    (a / b).toInt = a.toInt.tdiv b.toInt := by
  by_cases least : a = Int64.minValue
  · exact Int64.toInt_div_of_ne_right a b fun minus => other ⟨least, minus⟩
  · exact Int64.toInt_div_of_ne_left a b least

/-- What is left of a dividend in wrapping arithmetic is what is left exactly. -/
theorem toInt_sub_div_mul (a : Int64) (some : b ≠ 0) :
    (a - a / b * b).toInt = a.toInt.tmod b.toInt := by
  have wraps : Wraps (a.toInt - a.toInt.tdiv b.toInt * b.toInt) (a - a / b * b) :=
    (Wraps.exact a).sub ((Wraps.div a b).mul (Wraps.exact b))
  rw [Int.mul_comm, ← Int.tmod_def] at wraps
  -- It is smaller than the divisor, so it is in range.
  have small : (a.toInt.tmod b.toInt).natAbs < b.toInt.natAbs := by
    rw [Int.natAbs_tmod]
    exact Nat.mod_lt _ (Int.natAbs_pos.2 (toInt_ne_zero some))
  have lower := b.le_toInt
  have upper := b.toInt_lt
  exact wraps.toInt_eq (by omega) (by omega)

/-- What is left of a dividend is smaller than the divisor, and has the sign of the dividend. -/
theorem natAbs_sub_div_mul_lt (a : Int64) (some : b ≠ 0) :
    (a - a / b * b).toInt.natAbs < b.toInt.natAbs := by
  rw [toInt_sub_div_mul a some, Int.natAbs_tmod]
  exact Nat.mod_lt _ (Int.natAbs_pos.2 (toInt_ne_zero some))

theorem sign_sub_div_mul (a : Int64) (some : b ≠ 0) :
    a - a / b * b = 0 ∨ (a - a / b * b).toInt.sign = a.toInt.sign := by
  rw [← Int64.toInt_inj, toInt_sub_div_mul a some, Int64.toInt_zero, Int.sign_tmod]
  split
  · rename_i divides
    exact .inl (Int.tmod_eq_zero_of_dvd divides)
  · exact .inr rfl

/-! ## Order -/

/-- Exactly one of the comparisons holds. -/
theorem compared (a b : Int64) : (decide (a < b), decide (a = b), decide (b < a)) ∈
    [(true, false, false), (false, true, false), (false, false, true)] := by
  simp only [Int64.lt_iff_toInt_lt, ← Int64.toInt_inj]
  rcases Int.lt_trichotomy a.toInt b.toInt with below | same | above
  · simp [below, Int.ne_of_lt below, Int.lt_asymm below]
  · simp [same]
  · simp [above, Int.ne_of_gt above, Int.lt_asymm above]

end Integer

/-! ## All operators -/

/-- What the operators do with two integers. -/
structure IntegerArithmetic (a b : Int64) : Prop where
  add : ∃ c, BinaryOp.add.apply (.int a) (.int b) = .ok (.int c) ∧
    ∀ d, Wraps (a.toInt + b.toInt) d ↔ d = c
  sub : ∃ c, BinaryOp.sub.apply (.int a) (.int b) = .ok (.int c) ∧
    ∀ d, Wraps (a.toInt - b.toInt) d ↔ d = c
  mul : ∃ c, BinaryOp.mul.apply (.int a) (.int b) = .ok (.int c) ∧
    ∀ d, Wraps (a.toInt * b.toInt) d ↔ d = c
  negate : ∃ c, UnaryOp.negate.apply (.int a) = .ok (.int c) ∧ ∀ d, Wraps (-a.toInt) d ↔ d = c
  /-- Only division by zero fails. -/
  fails : ∀ op e, BinaryOp.apply op (.int a) (.int b) = .error e ↔
    op = .div ∧ b = 0 ∧ e = .divisionByZero
  unary : ∀ op e, UnaryOp.apply op (.int a) ≠ .error e
  /-- Quotients are exact and rounded toward zero, -/
  div : b ≠ 0 → ¬ (a = Int64.minValue ∧ b = -1) →
    ∃ c, BinaryOp.div.apply (.int a) (.int b) = .ok (.int c) ∧ c.toInt = a.toInt.tdiv b.toInt
  /-- but for one that is out of range. -/
  div_least : a = Int64.minValue → b = -1 →
    BinaryOp.div.apply (.int a) (.int b) = .ok (.int Int64.minValue)
  /-- The remainder that the operators give is smaller than the divisor, and it is zero or has the sign
  of the dividend. -/
  remainder : b ≠ 0 → ∃ q p r, BinaryOp.div.apply (.int a) (.int b) = .ok (.int q) ∧
    BinaryOp.mul.apply (.int q) (.int b) = .ok (.int p) ∧
    BinaryOp.sub.apply (.int a) (.int p) = .ok (.int r) ∧
    r.toInt.natAbs < b.toInt.natAbs ∧ (r = 0 ∨ r.toInt.sign = a.toInt.sign)
  /-- The comparisons follow the exact order, so exactly one of them is true. -/
  order : ∃ less equal greater : Bool, BinaryOp.less.apply (.int a) (.int b) = .ok (.bool less) ∧
    BinaryOp.equal.apply (.int a) (.int b) = .ok (.bool equal) ∧
    BinaryOp.greater.apply (.int a) (.int b) = .ok (.bool greater) ∧
    (less = true ↔ a.toInt < b.toInt) ∧ (equal = true ↔ a.toInt = b.toInt) ∧
    (greater = true ↔ b.toInt < a.toInt) ∧
    (less, equal, greater) ∈ [(true, false, false), (false, true, false), (false, false, true)]

theorem BinaryOp.onInts_error_iff {op : BinaryOp} {a b : Int64} {e : Fault} :
    op.onInts a b = .error e ↔ op = .div ∧ b = 0 ∧ e = .divisionByZero := by
  cases op with
  | div =>
    by_cases zero : b = 0 <;> simp [onInts, zero, eq_comm]
  | _ => simp [onInts]

theorem BinaryOp.div_ints (a : Int64) {b : Int64} (some : b ≠ 0) :
    BinaryOp.div.apply (.int a) (.int b) = .ok (.int (a / b)) :=
  if_neg some

theorem integerArithmetic (a b : Int64) : IntegerArithmetic a b := by
  have only {n : Int} {c : Int64} (wraps : Wraps n c) (d : Int64) : Wraps n d ↔ d = c :=
    ⟨fun other => other.unique wraps, fun same => same ▸ wraps⟩
  have left := Wraps.exact a
  have right := Wraps.exact b
  constructor
  case add => exact ⟨_, rfl, only (left.add right)⟩
  case sub => exact ⟨_, rfl, only (left.sub right)⟩
  case mul => exact ⟨_, rfl, only (left.mul right)⟩
  case negate => exact ⟨_, rfl, only left.neg⟩
  case fails => exact fun op e => BinaryOp.onInts_error_iff
  case unary =>
    intro op e
    cases op <;> nofun
  case div => exact fun some other => ⟨_, BinaryOp.div_ints a some, Integer.toInt_div other⟩
  case div_least =>
    rintro rfl rfl
    rfl
  case remainder =>
    exact fun some => ⟨_, _, _, BinaryOp.div_ints a some, rfl, rfl,
      Integer.natAbs_sub_div_mul_lt a some, Integer.sign_sub_div_mul a some⟩
  case order =>
    refine ⟨_, _, _, rfl, rfl, rfl, ?_, ?_, ?_, Integer.compared a b⟩
    · rw [decide_eq_true_iff, Int64.lt_iff_toInt_lt]
    · rw [decide_eq_true_iff, Int64.toInt_inj]
    · rw [decide_eq_true_iff, Int64.lt_iff_toInt_lt]

end Script
