import Script.Program.Parse.Equations
import Script.Proofs.Grammar.Basic

/-!
# Levels and strengths

The grammar sorts expressions into levels, the parser compares strengths. An expression read at the
strength `p` has the level `p.level`, and what stands behind an expression of the level `l` binds at
most with the strength `l.strength`. The two orders agree on everything an expression goes on with.
-/

namespace Script

open Grammar

/-! ## The order of levels -/

namespace Grammar

instance : LE Level := ⟨fun l m => l.rank ≤ m.rank⟩

instance (l m : Level) : Decidable (l ≤ m) := inferInstanceAs (Decidable (l.rank ≤ m.rank))

@[simp]
theorem Level.le_refl (l : Level) : l ≤ l := Nat.le_refl _

theorem Level.le_trans {l m n : Level} (lower : l ≤ m) (upper : m ≤ n) : l ≤ n :=
  Nat.le_trans lower upper

theorem Level.next_le {l m : Level} (h : l ≤ m) (distinct : l ≠ m) : l.next ≤ m := by
  revert h distinct
  cases l <;> cases m <;> decide

theorem Level.le_next (l : Level) : l ≤ l.next := by
  cases l <;> decide

/-- A phrase of a level is a phrase of every looser one. -/
theorem Derives.loosen {l m : Level} {ts rest : List Token} {e : Expr} (h : l ≤ m)
    (derives : Derives (.expr m) ts e rest) : Derives (.expr l) ts e rest := by
  -- One step at a time; the distance to `m` shrinks.
  induction distance : m.rank - l.rank using Nat.strongRecOn generalizing l with
  | ind n ih =>
    -- Either the levels are the same, or the one above `l` is still no tighter than `m`.
    by_cases same : l = m
    · rw [same]
      exact derives
    · have closer : l.next ≤ m := Level.next_le h same
      have further : l.rank < l.next.rank := by
        revert h same
        cases l <;> cases m <;> decide
      refine .tighter (ih _ ?_ closer rfl)
      have reached : l.next.rank ≤ m.rank := closer
      omega

end Grammar

/-! ## The order of strengths -/

theorem Precedence.le_refl (p : Precedence) : p ≤ p := Nat.le_refl _

theorem Precedence.le_trans {p q r : Precedence} (lower : p ≤ q) (upper : q ≤ r) : p ≤ r :=
  Nat.le_trans lower upper

theorem Precedence.not_lt {p q : Precedence} : ¬ p < q ↔ q ≤ p := Nat.not_lt

theorem Precedence.lowest_le (p : Precedence) : .lowest ≤ p := Nat.zero_le _

/-! ## From strengths to levels and back -/

/-- The level of what is read at a strength. -/
def Precedence.level : Precedence → Level
  | .lowest => .equality
  | .equality => .comparison
  | .comparison => .sum
  | .sum => .product
  | .product | .unary => .unary
  | .call | .index => .atom

/-- The greatest strength of what stands behind an expression of a level. -/
def Grammar.Level.strength : Level → Precedence
  | .equality => .equality
  | .comparison => .comparison
  | .sum => .sum
  | .product => .product
  | .unary => .unary
  | .suffix | .atom => .index

/-- The level of an expression that goes on. -/
def Continuation.level : Continuation → Level
  | .operator op => Grammar.level op
  | .call | .index => .suffix

/-- The symbol that opens a continuation. -/
def Continuation.symbol : Continuation → Symbol
  | .operator op => op.symbol
  | .call => .openParen
  | .index => .openBracket

theorem Precedence.lt_iff_level_le {p : Precedence} (h : p < .call) (k : Continuation) :
    p < k.precedence ↔ p.level ≤ k.level := by
  revert h
  cases k with
  | operator op => cases p <;> cases op <;> decide
  | call => cases p <;> decide
  | index => cases p <;> decide

theorem Continuation.precedence_le_iff (k : Continuation) (l : Level) :
    k.precedence ≤ l.strength ↔ k.level ≤ l := by
  cases k with
  | operator op => cases l <;> cases op <;> decide
  | call => cases l <;> decide
  | index => cases l <;> decide

theorem Grammar.Level.strength_mono {l m : Level} (h : l ≤ m) : l.strength ≤ m.strength := by
  revert h
  cases l <;> cases m <;> decide

theorem BinaryOp.precedence_lt_call (op : BinaryOp) : op.precedence < .call := by
  cases op <;> decide

theorem BinaryOp.level_precedence (op : BinaryOp) :
    op.precedence.level = (Grammar.level op).next := by
  cases op <;> rfl

theorem BinaryOp.strength_level (op : BinaryOp) : (Grammar.level op).strength = op.precedence := by
  cases op <;> rfl

/-! ## What an expression goes on with -/

namespace TokenKind

theorem continuation?_eq_some_iff {kind : TokenKind} {k : Continuation} :
    kind.continuation? = some k ↔ kind = .symbol k.symbol := by
  cases kind with
  | symbol s =>
    cases k with
    | operator op => cases s <;> cases op <;> decide
    | call => cases s <;> decide
    | index => cases s <;> decide
  | _ => simp [continuation?]

theorem precedence_of_some {kind : TokenKind} {k : Continuation} (h : kind.continuation? = some k) :
    kind.precedence = k.precedence := by
  simp [precedence, h]

theorem precedence_of_none {kind : TokenKind} (h : kind.continuation? = none) :
    kind.precedence = .lowest := by
  simp [precedence, h]

theorem precedence_le_lowest_iff {kind : TokenKind} :
    kind.precedence ≤ .lowest ↔ kind.continuation? = none := by
  cases h : kind.continuation? with
  | none => simp [precedence_of_none h, Precedence.le_refl]
  | some k =>
    have more : ¬ k.precedence ≤ .lowest := Nat.not_le_of_lt k.lowest_lt
    simp [precedence_of_some h, more]

theorem precedence_le_index (kind : TokenKind) : kind.precedence ≤ .index := by
  cases kind with
  | symbol s => cases s <;> decide
  | _ => simp [precedence, continuation?, Precedence.lowest_le]

/-- The symbols a bare statement cannot stand in front of are those that an expression goes on with,
and the semicolon. -/
theorem ne_goesOn_iff {kind : TokenKind} :
    (∀ s ∈ goesOn, kind ≠ .symbol s) ↔
      kind.continuation? = none ∧ kind ≠ .symbol .semicolon := by
  cases kind with
  | symbol s => cases s <;> decide
  | _ => simp [continuation?]

end TokenKind

namespace Parse

/-- An expression stops where what comes next does not bind strongly enough. -/
theorem continued_of_le {p : Precedence} {left : Expr} {ts : List Token}
    (h : (headKind ts.tail).precedence ≤ p) : continued p left ts = .done left ts := by
  rw [continued_eq]
  split
  · rename_i k opens
    rw [TokenKind.precedence_of_some opens, ← Precedence.not_lt] at h
    rw [if_neg h]
  · rfl

/-- An expression goes on where what comes next binds more strongly. -/
theorem continued_of_lt {p : Precedence} {k : Continuation} {left : Expr} {ts rest : List Token}
    (opens : ts.tail = .symbol k.symbol :: rest) (h : p < k.precedence) :
    continued p left ts = (resumed k left rest).bind (continued p) := by
  have told : (headKind ts.tail).continuation? = some k := by
    rw [TokenKind.continuation?_eq_some_iff, opens]
    rfl
  rw [continued_eq, told, opens]
  simp only [h, if_true, List.tail_cons]

end Parse
end Script
