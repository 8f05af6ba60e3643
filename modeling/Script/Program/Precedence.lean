import Script.Token.Basic
import Script.Program.Basic

/-!
# Precedence

After an operand an expression can go on: with a binary operator, with the arguments of a call, or
with an index. Each of these binds with a certain strength, and an expression read at some strength
goes on only with what binds more strongly.
-/

namespace Script

/-! ## Strengths -/

/-- Strengths of binding, weakest first. -/
inductive Precedence
  | lowest
  | equality
  | comparison
  | sum
  | product
  | unary
  | call
  | index
  deriving DecidableEq, Repr

/-- The place of a strength in the order. -/
def Precedence.rank : Precedence → Nat
  | .lowest => 0
  | .equality => 1
  | .comparison => 2
  | .sum => 3
  | .product => 4
  | .unary => 5
  | .call => 6
  | .index => 7

instance : LT Precedence := ⟨fun p q => p.rank < q.rank⟩

instance : LE Precedence := ⟨fun p q => p.rank ≤ q.rank⟩

instance (p q : Precedence) : Decidable (p < q) := inferInstanceAs (Decidable (p.rank < q.rank))

instance (p q : Precedence) : Decidable (p ≤ q) := inferInstanceAs (Decidable (p.rank ≤ q.rank))

def BinaryOp.precedence : BinaryOp → Precedence
  | .equal | .notEqual => .equality
  | .less | .greater => .comparison
  | .add | .sub => .sum
  | .mul | .div => .product

/-! ## Continuations -/

/-- What an expression goes on with after an operand. -/
inductive Continuation
  | operator (op : BinaryOp)
  | call
  | index
  deriving DecidableEq, Repr

def Continuation.precedence : Continuation → Precedence
  | .operator op => op.precedence
  | .call => .call
  | .index => .index

/-- The continuation that a symbol opens. -/
def Symbol.continuation? : Symbol → Option Continuation
  | .plus => some (.operator .add)
  | .minus => some (.operator .sub)
  | .star => some (.operator .mul)
  | .slash => some (.operator .div)
  | .less => some (.operator .less)
  | .greater => some (.operator .greater)
  | .equal => some (.operator .equal)
  | .notEqual => some (.operator .notEqual)
  | .openParen => some .call
  | .openBracket => some .index
  | _ => none

/-- The continuation that a token of the given kind opens. -/
def TokenKind.continuation? : TokenKind → Option Continuation
  | .symbol s => s.continuation?
  | _ => none

/-- The binary operator that a kind of token spells. -/
def TokenKind.operator? (kind : TokenKind) : Option BinaryOp :=
  match kind.continuation? with
  | some (.operator op) => some op
  | _ => none

/-- The strength with which a kind of token goes on with an expression, the least one if it does
not. -/
def TokenKind.precedence (kind : TokenKind) : Precedence :=
  match kind.continuation? with
  | some k => k.precedence
  | none => .lowest

/-- Every continuation binds more strongly than nothing at all. -/
theorem Continuation.lowest_lt (k : Continuation) : Precedence.lowest < k.precedence := by
  cases k with
  | operator op => cases op <;> decide
  | call => decide
  | index => decide

end Script
