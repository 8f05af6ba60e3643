import Script.Proofs.Errors.Local

/-!
# No reader sees further than one token ahead

Each reader is put together from single tokens and from other readers, which it calls on shorter
lists. So the readers are taken one by one, with expressions taken for granted up to some length, and
one induction on the length closes the circle.
-/

namespace Script
namespace Parse

variable {n : Nat}

/-! ## Single tokens -/

theorem local_next (kind : TokenKind) : Local n 2 (next kind) := by
  refine .peekKind fun found => ?_
  by_cases there : found = kind
  · refine ⟨_, .doneNext (), fun us seen => ?_⟩
    rw [next_eq, if_pos (seen.trans there)]
  · refine ⟨_, .failNext kind found, fun us seen => ?_⟩
    rw [next_eq, seen, if_neg there]

theorem local_nextName : Local n 2 nextName := by
  have refused (found : TokenKind) (other : found ≠ .ident) :
      ∃ g : List Token → Reply String,
        Local n 2 g ∧ ∀ us : List Token, headKind us.tail = found → nextName us = g us := by
    refine ⟨_, .failNext .ident found, fun us seen => ?_⟩
    rw [nextName_of_ne (seen ▸ other), seen]
  refine .peek ?_ fun t => ?_
  · rcases refused .eof (by decide) with ⟨g, whole, same⟩
    exact ⟨g, whole, fun us next => same us (congrArg headKind next)⟩
  · by_cases named : headKind [t] = .ident
    · rcases headKind_eq_ident_iff.1 named with ⟨x, others, there⟩
      cases there
      exact ⟨_, .doneNext x, fun us rest next => nextName_eq_done_iff.2 ⟨rfl, rest, next⟩⟩
    · rcases refused t.kind named with ⟨g, whole, same⟩
      exact ⟨g, whole, fun us rest next => same us (congrArg headKind next)⟩

theorem local_skipSemicolon {α : Type} (a : α) :
    Local n 2 fun us => Reply.done a (skipSemicolon us) := by
  refine .peekKind fun found => ?_
  by_cases semicolon : found = .symbol .semicolon
  · exact ⟨_, .doneNext a, fun us seen => by rw [skipSemicolon, if_pos (seen.trans semicolon)]⟩
  · exact ⟨_, .done a, fun us seen => by rw [skipSemicolon, if_neg (seen ▸ semicolon)]⟩

/-! ## Parameters -/

theorem local_moreParams : Local n 2 moreParams := by
  induction n with
  | zero =>
    refine .zero (by decide) (by decide) ?_
    rw [moreParams_eq]
    exact .done (Nat.le_refl _)
  | succ n ih =>
    refine .peekKind fun found => ?_
    by_cases comma : found = .symbol .comma
    · have more := local_nextName.bind fun x => ih.map (x :: ·)
      refine ⟨_, more.weaken.shift, fun us seen => ?_⟩
      rw [moreParams_eq, if_pos (seen.trans comma)]
    · refine ⟨_, .done [], fun us seen => ?_⟩
      rw [moreParams_eq, if_neg (seen ▸ comma)]

theorem local_params : Local n 2 params := by
  refine .peekKind fun found => ?_
  by_cases empty : found = .symbol .closeParen
  · refine ⟨_, .doneNext [], fun us seen => ?_⟩
    rw [params_eq, if_pos (seen.trans empty)]
  · have close (xs : List String) := (local_next (n := n) (.symbol .closeParen)).map fun _ => xs
    have more (x : String) := local_moreParams.bind fun xs => close (x :: xs)
    refine ⟨_, local_nextName.bind more, fun us seen => ?_⟩
    rw [params_eq, if_neg (seen ▸ empty)]

/-! ## Readers of expressions -/

/-- Expressions of at most `n` tokens are read with one token ahead. -/
def ExpressionLocal (n : Nat) : Prop :=
  ∀ p, Local n 1 (expression p)

theorem ExpressionLocal.mono {m : Nat} (h : ExpressionLocal n) (le : m ≤ n) : ExpressionLocal m :=
  fun p => (h p).mono le

/-- An expression behind the next token. -/
theorem ExpressionLocal.behind (h : ExpressionLocal n) :
    Local (n + 1) 2 fun us => expression .lowest us.tail :=
  (h .lowest).shift

theorem local_moreElements (h : ExpressionLocal n) : Local n 2 moreElements := by
  induction n with
  | zero =>
    refine .zero (by decide) (by decide) ?_
    rw [moreElements_eq]
    exact .done (Nat.le_refl _)
  | succ n ih =>
    have others := ih (h.mono (Nat.le_succ n))
    have behind : Local n 2 fun us => expression .lowest us.tail := h.behind.mono (by omega)
    refine .peekKind fun found => ?_
    by_cases comma : found = .symbol .comma
    · have more := behind.bind fun e => others.map (e :: ·)
      refine ⟨_, more.weaken.shift, fun us seen => ?_⟩
      rw [moreElements_eq, if_pos (seen.trans comma)]
    · refine ⟨_, .done [], fun us seen => ?_⟩
      rw [moreElements_eq, if_neg (seen ▸ comma)]

theorem local_elements (h : ExpressionLocal n) (close : Symbol) : Local n 1 (elements close) := by
  refine .lookKind fun found => ?_
  by_cases empty : found = .symbol close
  · refine ⟨_, (Local.done []).weaken, fun ts seen => ?_⟩
    rw [elements_eq, if_pos (seen.trans empty)]
  · have ended (es : List Expr) := (local_next (n := n) (.symbol close)).map fun _ => es
    have others (e : Expr) := (local_moreElements h).bind fun es => ended (e :: es)
    refine ⟨_, (h .lowest).bind others, fun ts seen => ?_⟩
    rw [elements_eq, if_neg (seen ▸ empty)]

theorem local_pairs (h : ExpressionLocal n) : Local n 1 pairs := by
  induction n with
  | zero =>
    refine .zero (by decide) (by decide) ?_
    rw [pairs_eq, if_neg (by simp), expression_nil, Reply.fail_bind]
    exact .fail (Nat.le_refl _)
  | succ n ih =>
    have shorter := h.mono (Nat.le_succ n)
    -- Behind a value comes the closing brace, or a comma and more pairs.
    have behind (pair : Expr × Expr) : Local (n + 1) 2 fun ws =>
        if headKind ws.tail = .symbol .closeBrace then .done [pair] ws.tail
        else (next (.symbol .comma) ws).bind fun _ xs => (pairs xs.tail).map (pair :: ·) := by
      refine .peekKind fun found => ?_
      by_cases last : found = .symbol .closeBrace
      · exact ⟨_, .doneNext [pair], fun us seen => by rw [if_pos (seen.trans last)]⟩
      · have others := (ih shorter).shift.map (pair :: ·)
        exact ⟨_, (local_next _).bind fun _ => others, fun us seen => by rw [if_neg (seen ▸ last)]⟩
    have value (key : Expr) := shorter.behind.bind fun value => behind (key, value)
    have colon (key : Expr) := (local_next (.symbol .colon)).bind fun _ => value key
    refine .lookKind fun found => ?_
    by_cases empty : found = .symbol .closeBrace
    · refine ⟨_, (Local.done []).weaken, fun ts seen => ?_⟩
      rw [pairs_eq, if_pos (seen.trans empty)]
    · refine ⟨_, (h .lowest).bind colon, fun ts seen => ?_⟩
      rw [pairs_eq, if_neg (seen ▸ empty)]

theorem local_alternative (blocks : Local n 1 block) (test : Expr) (yes : Block) :
    Local (n + 1) 2 (alternative test yes) := by
  refine .peekKind fun found => ?_
  by_cases other : found = .keyword .elseWord
  · have branch := (blocks.shift.mono (Nat.le_succ n)).map fun no => Expr.cond test yes (some no)
    have brace := (local_next (.symbol .openBrace)).bind fun _ => branch
    refine ⟨_, brace.weaken.shift, fun us seen => ?_⟩
    rw [alternative_eq, if_pos (seen.trans other)]
  · refine ⟨_, .done (.cond test yes none), fun us seen => ?_⟩
    rw [alternative_eq, if_neg (seen ▸ other)]

theorem local_resumed (h : ExpressionLocal n) (k : Continuation) (left : Expr) :
    Local n 1 (resumed k left) := by
  cases k with
  | operator op => exact ((h op.precedence).map (Expr.binary op left)).of_eq fun ts => resumed_eq _ _ ts
  | call => exact ((local_elements h .closeParen).map (Expr.call left)).of_eq fun ts => resumed_eq _ _ ts
  | index =>
    have close (i : Expr) :=
      (local_next (n := n) (.symbol .closeBracket)).map fun _ => Expr.index left i
    exact ((h .lowest).bind close).of_eq fun ts => resumed_eq _ _ ts

/-- The loop behind an operand. -/
theorem local_continued (h : ExpressionLocal n) (p : Precedence) (left : Expr) {m : Nat}
    (le : m ≤ n + 1) : Local m 2 (continued p left) := by
  induction m generalizing left with
  | zero =>
    refine .zero (by decide) (by decide) ?_
    rw [continued_eq]
    exact .done (Nat.le_refl _)
  | succ m ih =>
    refine .peekKind fun found => ?_
    cases told : found.continuation? with
    | none =>
      refine ⟨_, .done left, fun us seen => ?_⟩
      rw [continued_eq, seen, told]
    | some k =>
      by_cases stronger : p < k.precedence
      · have once : Local m 2 fun us => resumed k left us.tail :=
          (local_resumed h k left).shift.mono (by omega)
        have more := once.bind fun e => ih e (by omega)
        refine ⟨_, more.weaken.shift, fun us seen => ?_⟩
        rw [continued_eq, seen, told]
        exact if_pos stronger
      · refine ⟨_, .done left, fun us seen => ?_⟩
        rw [continued_eq, seen, told]
        exact if_neg stronger

/-! ## Readers of statements -/

theorem local_statement (h : ExpressionLocal n) : Local n 1 statement := by
  have behind : Local n 2 fun us => expression .lowest us.tail := h.behind.mono (Nat.le_succ n)
  have others := (h .lowest).bind fun value => local_skipSemicolon (Statement.expr value)
  refine .look ⟨_, others, statement_eq []⟩ fun t => ?_
  by_cases word : t = .keyword .letWord
  · have value (x : String) := behind.bind fun value => local_skipSemicolon (Statement.bind x value)
    have assign (x : String) := (local_next (.symbol .assign)).bind fun _ => value x
    exact ⟨_, (local_nextName.bind assign).weaken, fun rest => word ▸ statement_eq _⟩
  · by_cases word' : t = .keyword .returnWord
    · have value := behind.bind fun value => local_skipSemicolon (Statement.leave value)
      exact ⟨_, value.weaken, fun rest => word' ▸ statement_eq _⟩
    · refine ⟨_, others, fun rest => ?_⟩
      rw [statement_eq]
      split
      · rename_i same
        exact absurd (List.cons.inj same).1 word
      · rename_i same
        exact absurd (List.cons.inj same).1 word'
      · rfl

theorem local_block (h : ExpressionLocal n) : Local n 1 block := by
  induction n with
  | zero =>
    refine .zero (by decide) (by decide) ?_
    rw [block_eq, if_pos (.inr rfl)]
    exact .done (Nat.le_refl _)
  | succ n ih =>
    refine .lookKind fun found => ?_
    by_cases ends : found = .symbol .closeBrace ∨ found = .eof
    · refine ⟨_, (Local.done []).weaken, fun ts seen => ?_⟩
      rw [block_eq, if_pos (seen ▸ ends)]
    · refine ⟨_, (local_statement h).collect (ih (h.mono (Nat.le_succ n))), fun ts seen => ?_⟩
      rw [block_eq, if_neg (seen ▸ ends)]

/-! ## All readers -/

theorem local_operand (h : ExpressionLocal n) : Local (n + 1) 1 operand := by
  have blocks := local_block h
  refine .look ⟨_, .noOperand .eof, operand_eq []⟩ fun t => ?_
  cases t with
  | illegal c => exact ⟨_, .noOperand .illegal, fun rest => operand_eq _⟩
  | ident x => exact ⟨_, (Local.done (.name x)).weaken, fun rest => operand_eq _⟩
  | str text => exact ⟨_, (Local.done (.str text)).weaken, fun rest => operand_eq _⟩
  | int digits =>
    cases value : Integer.ofLiteral? digits.toList with
    | some n =>
      refine ⟨_, (Local.done (.int n)).weaken, fun rest => ?_⟩
      rw [operand_eq]
      simp only [value]
    | none =>
      refine ⟨_, .outOfRange digits, fun rest => ?_⟩
      rw [operand_eq]
      simp only [value]
  | symbol s =>
    cases s with
    | bang => exact ⟨_, ((h .unary).shift.map (Expr.unary .not)).weaken, fun rest => operand_eq _⟩
    | minus => exact ⟨_, ((h .unary).shift.map (Expr.unary .negate)).weaken, fun rest => operand_eq _⟩
    | openParen =>
      have close (e : Expr) := (local_next (n := n + 1) (.symbol .closeParen)).map fun _ => e
      exact ⟨_, (h.behind.bind close).weaken, fun rest => operand_eq _⟩
    | openBracket =>
      have inside := (local_elements h .closeBracket).shift.map Expr.array
      exact ⟨_, inside.weaken, fun rest => operand_eq _⟩
    | openBrace =>
      have inside := (local_pairs h).shift.map Expr.hash
      exact ⟨_, inside.weaken, fun rest => operand_eq _⟩
    | _ => exact ⟨_, .noOperand (.symbol _), fun rest => operand_eq _⟩
  | keyword k =>
    cases k with
    | trueWord => exact ⟨_, (Local.done (.bool true)).weaken, fun rest => operand_eq _⟩
    | falseWord => exact ⟨_, (Local.done (.bool false)).weaken, fun rest => operand_eq _⟩
    | fnWord =>
      have body (xs : List String) := blocks.shift.map (Expr.fn xs)
      have brace (xs : List String) := (local_next (.symbol .openBrace)).bind fun _ => body xs
      have whole := (local_next (.symbol .openParen)).bind fun _ => local_params.bind brace
      exact ⟨_, whole.weaken, fun rest => operand_eq _⟩
    | ifWord =>
      have branches (test : Expr) := blocks.shift.bind fun yes => local_alternative blocks test yes
      have brace (test : Expr) := (local_next (.symbol .openBrace)).bind fun _ => branches test
      have close (test : Expr) := (local_next (.symbol .closeParen)).bind fun _ => brace test
      have whole := (local_next (.symbol .openParen)).bind fun _ => h.behind.bind close
      exact ⟨_, whole.weaken, fun rest => operand_eq _⟩
    | _ => exact ⟨_, .noOperand (.keyword _), fun rest => operand_eq _⟩

/-- The induction on the length. -/
theorem expression_local (n : Nat) : ExpressionLocal n := by
  induction n with
  | zero =>
    intro p
    refine .zero (by decide) (by decide) ?_
    rw [expression_nil]
    exact .fail (Nat.le_refl _)
  | succ n ih =>
    intro p
    have whole := (local_operand ih).bind fun left => local_continued ih p left (Nat.le_refl _)
    exact whole.of_eq fun ts => expression_eq p ts

end Parse
end Script
