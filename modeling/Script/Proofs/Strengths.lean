import Script.Program.Equality
import Script.Proofs.Machine.Ends

/-!
# Weaker strengths go on

An expression read at a weak strength begins with the one read at a stronger strength from the same
place. The loop behind an operand does not remember how its left operand was read: where the stronger
loop stops, the weaker one can be taken up, and together they are the weaker loop alone. So an
expression that is complete at one strength is gone on with at every weaker one, and an error at one
strength is the error at every weaker one.

Main statement: `weakerGoesOn`, for the readers and for the machine with its loops.
-/

namespace Script

/-- Going on is going on with what was built, from where reading has stopped. -/
theorem Reply.bind_congr {α β : Type} {r : Reply α} {f g : α → List Token → Reply β}
    (same : ∀ a, r.outcome = .ok a → f a r.cursor = g a r.cursor) : r.bind f = r.bind g := by
  rcases r with ⟨e | a, recorded, cursor⟩
  · rfl
  · simp only [bind, same a rfl]

namespace Parse

variable {p q : Precedence} {ts us : List Token}

/-! ## The loop behind an operand -/

/-- The loop stops at what comes next, or goes on with it. -/
theorem stops_or_opens (p : Precedence) (ts : List Token) :
    (headKind ts.tail).precedence ≤ p ∨
      ∃ k rest, ts.tail = .symbol (Continuation.symbol k) :: rest ∧ p < k.precedence := by
  refine Classical.or_iff_not_imp_left.2 fun strong => ?_
  rcases told : (headKind ts.tail).continuation? with _ | k
  · rw [TokenKind.precedence_of_none told] at strong
    exact absurd p.lowest_le strong
  · rw [TokenKind.precedence_of_some told] at strong
    rcases headKind_eq_symbol_iff.1 (TokenKind.continuation?_eq_some_iff.1 told) with ⟨rest, opens⟩
    exact ⟨k, rest, opens, Nat.not_le.1 strong⟩

/-- What is read in one round of the loop does not go back. -/
theorem length_resumed_le (k : Continuation) (left : Expr) (ts : List Token) :
    (resumed k left ts).cursor.length ≤ ts.length :=
  (resumedStep k left ts).cursor_le

/-- Where the loop stops, a weaker one goes on as if it had read everything itself. -/
theorem continued_of_weaker (weaker : p ≤ q) (left : Expr) (ts : List Token) :
    continued p left ts = (continued q left ts).bind (continued p) := by
  induction size : ts.length using Nat.strongRecOn generalizing left ts with
  | ind n ih =>
    subst size
    rcases stops_or_opens q ts with stops | ⟨k, rest, opens, stronger⟩
    · rw [continued_of_le stops, Reply.done_bind]
    · have strong : p < k.precedence := Nat.lt_of_le_of_lt weaker stronger
      rw [continued_of_lt opens strong, continued_of_lt opens stronger, Reply.bind_assoc]
      -- Both have read the same round, and the induction is on what comes behind it.
      have shorter : rest.length < ts.length := Nat.lt_of_succ_lt (length_lt_of_tail opens)
      have le := length_resumed_le k left rest
      refine Reply.bind_congr fun e _ => ?_
      exact ih _ (Nat.lt_of_le_of_lt le shorter) e _ rfl

/-- A loop that ends with an expression has nothing in front of it that it would go on with. -/
theorem continued_stops {left e : Expr} (read : (continued p left ts).outcome = .ok e) :
    (headKind (continued p left ts).cursor.tail).precedence ≤ p := by
  induction size : ts.length using Nat.strongRecOn generalizing left ts with
  | ind n ih =>
    subst size
    rcases stops_or_opens p ts with stops | ⟨k, rest, opens, stronger⟩
    · rw [continued_of_le stops]
      exact stops
    · rw [continued_of_lt opens stronger] at read ⊢
      have shorter : rest.length < ts.length := Nat.lt_of_succ_lt (length_lt_of_tail opens)
      have le := length_resumed_le k left rest
      rcases once : (resumed k left rest).outcome with error | longer
      · simp [Reply.bind, once] at read
      · simp only [Reply.bind, once] at read ⊢
        exact ih _ (Nat.lt_of_le_of_lt le shorter) read rfl

/-! ## Expressions -/

/-- An expression begins with what is read at any stronger strength. -/
theorem expression_of_weaker (weaker : p ≤ q) (ts : List Token) :
    expression p ts = (expression q ts).bind (continued p) := by
  rw [expression_eq, expression_eq, Reply.bind_assoc]
  exact Reply.bind_congr fun left _ => continued_of_weaker weaker left _

theorem expression_stops {e : Expr} (read : (expression p ts).outcome = .ok e) :
    (headKind (expression p ts).cursor.tail).precedence ≤ p := by
  rw [expression_eq] at read ⊢
  rcases first : (operand ts).outcome with error | left
  · simp [Reply.bind, first] at read
  · simp only [Reply.bind, first] at read ⊢
    exact continued_stops read

/-! ## The machine -/

namespace Machine

variable {w w' : Progress}

/-- The machine ends on every expression, with the reply of the reader behind what was recorded. -/
theorem run_expression (p : Precedence) (w : Progress) :
    (Reader.expression p).run w = some ((Parse.expression p w.cursor).outcome,
      ⟨(Parse.expression p w.cursor).cursor, w.errors ++ (Parse.expression p w.cursor).recorded⟩) :=
  (expression_ends _ p (Nat.lt_succ_self _)).run w.errors

/-- The same for its loop. -/
theorem run_continued (p : Precedence) (left : Expr) (w : Progress) :
    (Reader.continued p left).run w = some ((Parse.continued p left w.cursor).outcome,
      ⟨(Parse.continued p left w.cursor).cursor,
        w.errors ++ (Parse.continued p left w.cursor).recorded⟩) :=
  (continued_delivers (expression_ends _) p left (Nat.le_refl _)).run w.errors

/-- The machine at the weaker strength is the machine at the stronger one, and then its loop. -/
theorem run_of_weaker (weaker : p ≤ q) (w : Progress) :
    (Reader.expression p).run w = (Reader.expression q).run w >>= fun stopped =>
      match stopped with
      | (.ok e, w') => (Reader.continued p e).run w'
      | (.error e, w') => some (.error e, w') := by
  rw [run_expression, run_expression, expression_of_weaker weaker]
  rcases Parse.expression q w.cursor with ⟨e | left, recorded, cursor⟩
  · rfl
  · simp only [Option.bind_eq_bind, Option.bind_some, run_continued, Reply.bind, List.append_assoc]

end Machine

/-! ## The main theorem -/

open Machine in
/-- Reading an expression at the weaker of two strengths is reading it at the stronger one and going on
from there. -/
structure WeakerGoesOn : Prop where
  /-- The reply at `p` is that at `q`, gone on with by the loop at `p`. -/
  replies : ∀ p q ts, p ≤ q → expression p ts = (expression q ts).bind (continued p)
  /-- What comes behind a complete expression does not bind more strongly than it was read. -/
  behind : ∀ p ts e, (expression p ts).outcome = .ok e →
    (headKind (expression p ts).cursor.tail).precedence ≤ p
  /-- The machine ends, whatever it has read and recorded before. -/
  ends : ∀ p w, ∃ outcome w', (Reader.expression p).run w = some (outcome, w')
  /-- If it is complete at `q`, then from there the loop at `p` does what the machine does at `p`. -/
  complete : ∀ p q w e w', p ≤ q → (Reader.expression q).run w = some (.ok e, w') →
    (Reader.expression p).run w = (Reader.continued p e).run w'
  /-- If it fails at `q`, then at `p` it fails with the same error in the same state. -/
  fails : ∀ p q w error w', p ≤ q → (Reader.expression q).run w = some (.error error, w') →
    (Reader.expression p).run w = some (.error error, w')
  /-- Where it is complete, a semicolon comes next, or what does not bind more strongly. -/
  stops : ∀ p w e w', (Reader.expression p).run w = some (.ok e, w') →
    headKind w'.cursor.tail = .symbol .semicolon ∨ (headKind w'.cursor.tail).precedence ≤ p

theorem weakerGoesOn : WeakerGoesOn where
  replies p q ts weaker := expression_of_weaker weaker ts
  behind p ts e read := expression_stops read
  ends p w := ⟨_, _, Machine.run_expression p w⟩
  complete p q w e w' weaker read := by
    rw [Machine.run_of_weaker weaker, read]
    rfl
  fails p q w error w' weaker failed := by
    rw [Machine.run_of_weaker weaker, failed]
    rfl
  stops p w e w' read := by
    rw [Machine.run_expression, Option.some.injEq, Prod.mk.injEq] at read
    rcases read with ⟨read, rfl⟩
    exact .inr (expression_stops read)

open Machine in
/-- For example, at the strength of sums the product is read up to the plus sign, and at the least
strength the loop goes on with it. -/
theorem weakerGoesOn_sum :
    let w : Progress := ⟨tokens "1 * 2 + 3;".toList, []⟩
    let product : Expr := .binary .mul (.int 1) (.int 2)
    ∃ w', (Reader.expression .sum).run w = some (.ok product, w') ∧
      headKind w'.cursor.tail = .symbol .plus ∧
      (Reader.expression .lowest).run w = (Reader.continued .lowest product).run w' := by
  intro w product
  have built : (expression .sum w.cursor).built = [product] := by
    decide +kernel
  have read : (expression .sum w.cursor).outcome = .ok product := by
    rcases told : (expression .sum w.cursor).outcome with error | e
    · simp [Reply.built, told] at built
    · simpa [Reply.built, told] using built
  have next : headKind (expression .sum w.cursor).cursor.tail = .symbol .plus := by
    decide +kernel
  have ran := Machine.run_expression .sum w
  rw [read] at ran
  exact ⟨_, ran, next, weakerGoesOn.complete .lowest .sum w product _ (by decide) ran⟩

end Parse
end Script
