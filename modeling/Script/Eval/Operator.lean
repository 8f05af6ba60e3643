import Script.Integer
import Script.Value.Equality

/-!
# Operators

What operators and indexing make of values. None of them changes the state.
-/

namespace Script

/-- A unary operator on a value. Negation wraps around. -/
def UnaryOp.apply : UnaryOp → Value → Except Fault Value
  | .negate, .int n => .ok (.int (-n))
  | .negate, v => .error (.unknownUnary .negate v.type)
  | .not, v => .ok (.bool !v.isTruthy)

/-- A binary operator on integers. Arithmetic wraps around and division goes toward zero. -/
def BinaryOp.onInts : BinaryOp → Int64 → Int64 → Except Fault Value
  | .add, m, n => .ok (.int (m + n))
  | .sub, m, n => .ok (.int (m - n))
  | .mul, m, n => .ok (.int (m * n))
  | .div, m, n => if n = 0 then .error .divisionByZero else .ok (.int (m / n))
  | .less, m, n => .ok (.bool (m < n))
  | .greater, m, n => .ok (.bool (n < m))
  | .equal, m, n => .ok (.bool (m = n))
  | .notEqual, m, n => .ok (.bool (m ≠ n))

/-- A binary operator on values that are neither two integers nor two strings. Identity can always be
asked for, and nothing else. -/
def BinaryOp.onOthers : BinaryOp → Value → Value → Except Fault Value
  | .equal, v, w => .ok (.bool (v.identical w))
  | .notEqual, v, w => .ok (.bool !v.identical w)
  | op, v, w =>
    if v.type = w.type then .error (.unknownBinary v.type op w.type)
    else .error (.typeMismatch v.type op w.type)

/-- A binary operator on two values. Strings can be joined, but not even compared. -/
def BinaryOp.apply : BinaryOp → Value → Value → Except Fault Value
  | op, .int m, .int n => op.onInts m n
  | .add, .str s, .str t => .ok (.str (s ++ t))
  | op, .str _, .str _ => .error (.unknownBinary .str op .str)
  | op, v, w => op.onOthers v w

/-- The element of an array at an integer, or the value of a hash at a key; `null` if there is
none. -/
def Value.elementAt : Value → Value → Except Fault Value
  | .array _ elements, .int i =>
    .ok (((Integer.toIndex? i).bind fun i => elements[i]?).getD .null)
  | .hash _ pairs, i =>
    match i.key? with
    | some k => .ok ((Table.get? k pairs).getD .null)
    | none => .error (.unusableKey i.type)
  | v, _ => .error (.notIndexable v.type)

end Script
