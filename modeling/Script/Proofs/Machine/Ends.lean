import Script.Proofs.Machine.Basic
import Script.Proofs.Errors.Count

/-!
# The machine ends

The machine has no bound of its own, and some of its loops do not look for the end of the input. It
ends all the same, and what it gives is the reply of the reader: `Delivers m ts r`. So it has built the
draft when it ends, with no more statements and errors than there are tokens, and with at least one if
there is a token.

Only an expression that has failed ends some of the loops at the end of the input, and an expression
that is complete has moved on. So there is one induction on the number of tokens, as for the errors.
-/

namespace Script
namespace Parse
namespace Machine

variable {α β : Type}

/-! ## Delivered replies -/

/-- From `ts` the machine ends with the reply, whatever was recorded before. -/
structure Delivers (m : Machine α) (ts : List Token) (r : Reply α) : Prop where
  run : ∀ errors, m.run ⟨ts, errors⟩ = some (r.outcome, ⟨r.cursor, errors ++ r.recorded⟩)
  back : r.cursor.length ≤ ts.length

namespace Delivers

variable {m : Machine α} {ts : List Token} {r : Reply α}

theorem done (a : α) (ts : List Token) : Delivers (pure a) ts (.done a ts) where
  run errors := by
    rw [Reply.done, List.append_nil]
    rfl
  back := Nat.le_refl _

theorem fail (e : ParseError) (ts : List Token) : Delivers (throw e : Machine α) ts (.fail e ts) where
  run errors := by
    rw [Reply.fail, List.append_nil]
    rfl
  back := Nat.le_refl _

theorem current {f : List Token → Machine α} (h : Delivers (f ts) ts r) :
    Delivers (Machine.current >>= f) ts r :=
  ⟨h.run, h.back⟩

theorem peek {f : TokenKind → Machine α} (h : Delivers (f (headKind ts.tail)) ts r) :
    Delivers (Machine.peek >>= f) ts r :=
  ⟨h.run, h.back⟩

theorem advance {f : Unit → Machine α} (h : Delivers (f ()) ts.tail r) :
    Delivers (Machine.advance >>= f) ts r :=
  ⟨h.run, Nat.le_trans h.back (List.tail_sublist ts).length_le⟩

theorem moved (ts : List Token) : Delivers Machine.advance ts (.done () ts.tail) where
  run := ((done () ts.tail).run ·)
  back := (List.tail_sublist ts).length_le

/-- What follows a failure is not run. -/
theorem stop {e : ParseError} {us : List Token} {f : α → Machine β}
    (h : Delivers m ts (.fail e us)) : Delivers (m >>= f) ts (.fail e us) where
  run errors := by
    change (m.run ⟨ts, errors⟩ >>= fun q => ExceptT.bindCont f q.1 q.2) = _
    rw [h.run]
    rfl
  back := h.back

/-- What follows is run if something was built, from the cursor. -/
theorem bind {f : α → Machine β} {g : α → List Token → Reply β} (h : Delivers m ts r)
    (next : ∀ a us, us.length ≤ ts.length → Delivers (f a) us (g a us)) :
    Delivers (m >>= f) ts (r.bind g) := by
  have after (errors : List Diagnostic) : (m >>= f).run ⟨ts, errors⟩ =
      m.run ⟨ts, errors⟩ >>= fun q => ExceptT.bindCont f q.1 q.2 := rfl
  rcases r with ⟨e | a, recorded, cursor⟩
  · refine ⟨fun errors => ?_, h.back⟩
    rw [after, h.run]
    rfl
  · have others := next a cursor h.back
    refine ⟨fun errors => ?_, Nat.le_trans others.back h.back⟩
    rw [after, h.run]
    simp only [Reply.bind, ← List.append_assoc]
    exact others.run (errors ++ recorded)

theorem map (h : Delivers m ts r) (g : α → β) :
    Delivers (m >>= fun a => pure (g a)) ts (r.map g) := by
  rw [Reply.map_eq_bind]
  exact h.bind fun a us _ => done (g a) us

end Delivers

theorem run_lift (m : StateT Progress Option α) (w : Progress) :
    (ExceptT.lift m : Machine α).run w = (m w).map fun q => (.ok q.1, q.2) :=
  Option.map_eq_bind.symm

/-! ## Single tokens and parameters -/

variable {n : Nat} {ts : List Token}

theorem expect_delivers (kind : TokenKind) (ts : List Token) :
    Delivers (expect kind) ts (next kind ts) := by
  rw [next_eq]
  refine .peek ?_
  split
  · exact .moved ts
  · exact .fail _ ts

theorem expectName_delivers (ts : List Token) : Delivers expectName ts (nextName ts) := by
  refine .current ?_
  split
  · rename_i x rest follows
    rw [nextName_eq_done_iff.2 ⟨rfl, rest, follows⟩]
    exact .advance (.done x ts.tail)
  · rename_i other
    have unnamed : headKind ts.tail ≠ .ident := fun named =>
      let ⟨x, rest, follows⟩ := headKind_eq_ident_iff.1 named
      other x rest follows
    rw [nextName_of_ne unnamed]
    exact .fail _ ts

theorem skipSemicolon_delivers (a : α) (ts : List Token) :
    Delivers (do skipSemicolon; return a) ts (.done a (Parse.skipSemicolon ts)) := by
  have skipped : Delivers skipSemicolon ts (.done () (Parse.skipSemicolon ts)) := by
    unfold Parse.skipSemicolon
    refine .peek ?_
    split
    · exact .moved ts
    · exact .done () ts
  exact skipped.map fun _ => a

theorem moreParams_delivers (ts : List Token) :
    Delivers Reader.moreParams.run ts (Parse.moreParams ts) := by
  induction size : ts.length using Nat.strongRecOn generalizing ts with
  | ind m ih =>
    subst size
    rw [Reader.run, moreParams_eq]
    refine .peek ?_
    split
    · rename_i comma
      have more := one_lt_length comma (by decide)
      have shorter : ts.tail.length = ts.length - 1 := List.length_tail
      refine .advance ((expectName_delivers ts.tail).bind fun x us le => ?_)
      exact (ih us.length (by omega) us rfl).map (x :: ·)
    · exact .done [] ts

theorem params_delivers (ts : List Token) : Delivers Reader.params.run ts (Parse.params ts) := by
  rw [Reader.run, params_eq]
  refine .peek ?_
  split
  · exact .advance (.done [] ts.tail)
  · exact (expectName_delivers ts).bind fun x us _ => (moreParams_delivers us).bind fun xs vs _ =>
      (expect_delivers _ vs).map fun _ => x :: xs

/-! ## Readers of expressions -/

/-- The machine ends on expressions of less than `n` tokens. -/
def ExpressionEnds (n : Nat) : Prop :=
  ∀ p ⦃ts⦄, ts.length < n → Delivers (Reader.expression p).run ts (Parse.expression p ts)

/-- What is behind the cursor is shorter. -/
theorem ExpressionEnds.behind (h : ExpressionEnds n) (p : Precedence) (short : ts.length ≤ n)
    (positive : 0 < n) : Delivers (Reader.expression p).run ts.tail (Parse.expression p ts.tail) := by
  have shorter : ts.tail.length = ts.length - 1 := List.length_tail
  exact h p (by omega)

theorem moreElements_delivers (h : ExpressionEnds n) (short : ts.length ≤ n) :
    Delivers Reader.moreElements.run ts (Parse.moreElements ts) := by
  induction size : ts.length using Nat.strongRecOn generalizing ts with
  | ind m ih =>
    subst size
    rw [Reader.run, moreElements_eq]
    refine .peek ?_
    split
    · rename_i comma
      have more := one_lt_length comma (by decide)
      have shorter : ts.tail.length = ts.length - 1 := List.length_tail
      have shorter' : ts.tail.tail.length = ts.tail.length - 1 := List.length_tail
      refine .advance (.advance ((h .lowest (by omega)).bind fun e us le => ?_))
      exact (ih us.length (by omega) (by omega) rfl).map (e :: ·)
    · exact .done [] ts

/-- The machine is at the opening bracket. -/
theorem elements_delivers (h : ExpressionEnds n) (close : Symbol) (short : ts.tail.length < n) :
    Delivers (Reader.elements close).run ts (Parse.elements close ts.tail) := by
  rw [Reader.run, elements_eq]
  refine .peek ?_
  split
  · exact .advance (.done [] ts.tail)
  · exact .advance ((h .lowest short).bind fun e us le =>
      (moreElements_delivers h (by omega)).bind fun es vs _ =>
        (expect_delivers _ vs).map fun _ => e :: es)

/-- Behind the last token no brace follows, and the next key fails. -/
theorem pairs_delivers (h : ExpressionEnds n) (short : ts.tail.length < n) :
    Delivers Reader.pairs.run ts (Parse.pairs ts.tail) := by
  induction size : ts.tail.length using Nat.strongRecOn generalizing ts with
  | ind m ih =>
    subst size
    rw [Reader.run, pairs_eq]
    refine .peek ?_
    split
    · rename_i close
      have closed : next (.symbol .closeBrace) ts = .done () ts.tail := by
        rw [next_eq, if_pos close]
      have ended := (expect_delivers (.symbol .closeBrace) ts).map fun _ => ([] : List (Expr × Expr))
      rw [closed] at ended
      exact ended
    · refine .advance ?_
      by_cases empty : ts.tail = []
      · have stuck := h .lowest short
        rw [empty, expression_nil] at stuck
        rw [empty, expression_nil, Reply.fail_bind]
        exact stuck.stop
      · have some : 0 < ts.tail.length := List.length_pos_iff.2 empty
        refine (h .lowest short).bind fun key us le => ?_
        refine (expect_delivers _ us).bind fun _ vs le' => .advance ?_
        refine (h.behind .lowest (by omega) (by omega)).bind fun value ws le'' => .peek ?_
        have shorter : vs.tail.length = vs.length - 1 := List.length_tail
        split
        · rename_i close
          have last : Parse.pairs ws.tail = .done [] ws.tail := by
            rw [pairs_eq, if_pos close]
          have tail : ws.tail.length ≤ ws.length := (List.tail_sublist ws).length_le
          have others := (ih ws.tail.length (by omega) (by omega) rfl).map ((key, value) :: ·)
          rw [last] at others
          exact others
        · refine (expect_delivers _ ws).bind fun _ xs le₃ => ?_
          have shorter' : xs.tail.length = xs.length - 1 := List.length_tail
          exact (ih xs.tail.length (by omega) (by omega) rfl).map ((key, value) :: ·)

theorem resumed_delivers (h : ExpressionEnds n) (k : Continuation) (left : Expr)
    (short : ts.tail.length < n) :
    Delivers (Reader.resumed k left).run ts (Parse.resumed k left ts.tail) := by
  rw [Reader.run.eq_def, resumed_eq]
  cases k with
  | operator op => exact .advance ((h op.precedence short).map (Expr.binary op left))
  | call => exact (elements_delivers h .closeParen short).map (Expr.call left)
  | index => exact .advance ((h .lowest short).bind fun i us _ =>
      (expect_delivers _ us).map fun _ => Expr.index left i)

/-- The loop behind an operand goes round at most once for every token. -/
theorem continued_delivers (h : ExpressionEnds n) (p : Precedence) (left : Expr)
    (short : ts.length ≤ n) :
    Delivers (Reader.continued p left).run ts (Parse.continued p left ts) := by
  induction size : ts.length using Nat.strongRecOn generalizing ts left with
  | ind m ih =>
    subst size
    rw [Reader.run, continued_eq]
    refine .peek ?_
    cases told : (headKind ts.tail).continuation? with
    | none => exact .done left ts
    | some k =>
      dsimp only
      split
      · have other : headKind ts.tail ≠ .eof := by
          intro ended
          rw [ended] at told
          cases told
        have more := one_lt_length rfl other
        have shorter : ts.tail.length = ts.length - 1 := List.length_tail
        have shorter' : ts.tail.tail.length = ts.tail.length - 1 := List.length_tail
        have short' : ts.tail.tail.length < n := by omega
        have once := resumed_delivers h k left short'
        exact .advance (once.bind fun e us le => ih us.length (by omega) e (by omega) rfl)
      · exact .done left ts

/-! ## Readers of statements -/

theorem statement_delivers (h : ExpressionEnds n) (short : ts.length < n) :
    Delivers Reader.statement.run ts (Parse.statement ts) := by
  rw [Reader.run, statement_eq]
  refine .current ?_
  have plain := (h .lowest short).bind fun value us _ =>
    skipSemicolon_delivers (Statement.expr value) us
  cases ts with
  | nil => exact plain
  | cons t rest =>
    cases t with
    | keyword k =>
      cases k with
      | letWord =>
        refine (expectName_delivers _).bind fun x us le => ?_
        refine (expect_delivers _ us).bind fun _ vs le' => .advance ?_
        exact (h.behind .lowest (by omega) (by omega)).bind fun value ws _ =>
          skipSemicolon_delivers (Statement.bind x value) ws
      | returnWord =>
        have value := h.behind .lowest (Nat.le_of_lt short) (Nat.zero_lt_of_lt short)
        exact .advance (value.bind fun value us _ =>
          skipSemicolon_delivers (Statement.leave value) us)
      | _ => exact plain
    | _ => exact plain

theorem statements_of_mem {ends : List TokenKind} (closed : headKind ts ∈ ends)
    (errors : List Diagnostic) :
    (Reader.statements ends).run ⟨ts, errors⟩ = some ([], ⟨ts, errors⟩) := by
  rw [Reader.run]
  change (if _ ∈ ends then _ else _ : StateT Progress Option Block) _ = _
  rw [if_pos closed]
  rfl

/-- One round of the loop: what was read goes in front of the rest; what did not fit is recorded, and
the rest is read behind the token at the cursor. -/
theorem statements_of_notMem {ends : List TokenKind} {r : Reply Statement}
    (h : Delivers Reader.statement.run ts r) (open_ : headKind ts ∉ ends) (errors : List Diagnostic) :
    (Reader.statements ends).run ⟨ts, errors⟩ =
      ((Reader.statements ends).run ⟨r.cursor.tail, errors ++ r.errors⟩).map
        fun q => (r.built ++ q.1, q.2) := by
  conv => lhs; rw [Reader.run]
  change (if _ ∈ ends then _ else _ : StateT Progress Option Block) _ = _
  rw [if_neg open_]
  have ran : Reader.statement.run ⟨ts, errors⟩ = _ := h.run errors
  change (Reader.statement.run ⟨ts, errors⟩ >>= _) = _
  rw [ran]
  rcases r with ⟨e | a, recorded, cursor⟩
  · have located : errors ++ recorded ++ [e.locate cursor] =
        errors ++ Reply.errors ⟨(.error e : Except ParseError Statement), recorded, cursor⟩ :=
      List.append_assoc _ _ _
    rw [← located]
    exact Option.map_id'.symm
  · exact Option.map_eq_bind.symm

/-- Each round of the loop begins behind the cursor of the one before. -/
theorem statements_delivers (h : ExpressionEnds n) (short : ts.length < n) :
    Delivers (ExceptT.lift (Reader.statements [.symbol .closeBrace, .eof]).run) ts
      (Parse.block ts) := by
  induction size : ts.length using Nat.strongRecOn generalizing ts with
  | ind m ih =>
    subst size
    rw [block_eq]
    split
    · rename_i closed
      refine ⟨fun errors => ?_, Nat.le_refl _⟩
      rw [run_lift, statements_of_mem (by simpa using closed)]
      exact (Delivers.done ([] : Block) ts).run errors
    · rename_i open_
      have some : 0 < ts.length := by
        cases ts with
        | nil => exact absurd (.inr rfl) open_
        | cons t rest => exact Nat.zero_lt_succ _
      have first := statement_delivers h short
      have le := first.back
      have shorter : (Parse.statement ts).cursor.tail.length =
        (Parse.statement ts).cursor.length - 1 := List.length_tail
      have others := ih (Parse.statement ts).cursor.tail.length (by omega) (by omega) rfl
      refine ⟨fun errors => ?_, Nat.le_trans others.back (by omega)⟩
      have next := others.run (errors ++ (Parse.statement ts).errors)
      rw [run_lift, Option.map_eq_some_iff] at next
      rcases next with ⟨⟨more, w⟩, ran, same⟩
      rcases Prod.mk.inj same with ⟨outcome, rfl⟩
      rw [run_lift, statements_of_notMem first (by simpa using open_), ran]
      simp [Reply.collect, ← outcome, Except.map]

/-- The machine is at the opening brace. -/
theorem block_delivers (h : ExpressionEnds n) (short : ts.tail.length < n) :
    Delivers Reader.block.run ts (Parse.block ts.tail) := by
  rw [Reader.run]
  have inside := statements_delivers h short
  exact ⟨inside.run, Nat.le_trans inside.back (List.tail_sublist ts).length_le⟩

/-! ## All readers -/

theorem operand_delivers (h : ExpressionEnds n) (short : ts.length ≤ n) (positive : 0 < n) :
    Delivers Reader.operand.run ts (Parse.operand ts) := by
  rw [Reader.run, operand_eq]
  refine .current ?_
  cases ts with
  | nil => exact .fail _ []
  | cons t rest =>
    have short' : rest.length < n := Nat.lt_of_succ_le short
    cases t with
    | ident x => exact .done _ _
    | int digits =>
      dsimp only
      cases Integer.ofLiteral? digits.toList with
      | some n => exact .done _ _
      | none => exact .fail _ _
    | str text => exact .done _ _
    | illegal c => exact .fail _ _
    | symbol s =>
      cases s with
      | bang => exact .advance ((h .unary short').map (Expr.unary .not))
      | minus => exact .advance ((h .unary short').map (Expr.unary .negate))
      | openParen => exact .advance ((h .lowest short').bind fun e us _ =>
          (expect_delivers _ us).map fun _ => e)
      | openBracket =>
        have inside : (Token.symbol .openBracket :: rest).tail.length < n := short'
        exact (elements_delivers h .closeBracket inside).map Expr.array
      | openBrace =>
        have inside : (Token.symbol .openBrace :: rest).tail.length < n := short'
        exact (pairs_delivers h inside).map Expr.hash
      | _ => exact .fail _ _
    | keyword k =>
      cases k with
      | trueWord | falseWord => exact .done _ _
      | fnWord =>
        refine (expect_delivers _ _).bind fun _ us le => ?_
        refine (params_delivers us).bind fun xs vs le' => ?_
        refine (expect_delivers _ vs).bind fun _ ws le'' => ?_
        have shorter : ws.tail.length = ws.length - 1 := List.length_tail
        exact (block_delivers h (by omega)).map (Expr.fn xs)
      | ifWord =>
        refine (expect_delivers _ _).bind fun _ us le => .advance ?_
        refine (h.behind .lowest (by omega) positive).bind fun test vs le' => ?_
        refine (expect_delivers _ vs).bind fun _ ws le'' => ?_
        refine (expect_delivers _ ws).bind fun _ xs le₃ => ?_
        have shorter : xs.tail.length = xs.length - 1 := List.length_tail
        have shorter' : us.tail.length = us.length - 1 := List.length_tail
        refine (block_delivers h (by omega)).bind fun yes ys le₄ => ?_
        rw [alternative_eq]
        refine .peek ?_
        split
        · refine .advance ((expect_delivers _ ys.tail).bind fun _ zs le₅ => ?_)
          have shorter'' : zs.tail.length = zs.length - 1 := List.length_tail
          have tail : ys.tail.length ≤ ys.length := (List.tail_sublist ys).length_le
          exact (block_delivers h (by omega)).map fun no => Expr.cond test yes (some no)
        · exact .done _ ys
      | _ => exact .fail _ _

/-- The induction on the length. -/
theorem expression_ends (n : Nat) : ExpressionEnds n := by
  induction n with
  | zero =>
    intro p ts short
    exact absurd short (Nat.not_lt_zero _)
  | succ n ih =>
    intro p ts short
    rw [Reader.run, expression_eq]
    rcases Nat.eq_zero_or_pos n with rfl | positive
    · have empty : ts = [] := List.eq_nil_of_length_eq_zero (by omega)
      subst empty
      rw [Reader.run, operand_eq, Reply.fail_bind]
      exact (Delivers.current (.fail (.noOperand .eof) [])).stop
    · exact (operand_delivers ih (by omega) positive).bind fun left us le =>
        continued_delivers ih p left (by omega)

/-! ## Programs -/

/-- The machine ends behind the last token, with the statements and errors of the draft. -/
theorem program_run (ts : List Token) (errors : List Diagnostic) :
    program ⟨ts, errors⟩ =
      some ((Draft.ofTokens ts).statements, ⟨[], errors ++ (Draft.ofTokens ts).errors⟩) := by
  induction size : ts.length using Nat.strongRecOn generalizing ts errors with
  | ind m ih =>
    subst size
    cases ts with
    | nil =>
      rw [Draft.ofTokens, List.append_nil]
      have ended : headKind [] ∈ [TokenKind.eof] := List.mem_singleton_self _
      exact statements_of_mem ended errors
    | cons t rest =>
      have first := statement_delivers (expression_ends _) (Nat.lt_succ_self (t :: rest).length)
      have open_ : headKind (t :: rest) ∉ [.eof] := by
        rw [List.mem_singleton]
        exact t.kind_ne_eof
      have le := first.back
      rw [List.length_cons] at le
      have shorter : (Parse.statement (t :: rest)).cursor.tail.length =
        (Parse.statement (t :: rest)).cursor.length - 1 := List.length_tail
      have others := ih (Parse.statement (t :: rest)).cursor.tail.length
        (by rw [List.length_cons]; omega) _ (errors ++ (Parse.statement (t :: rest)).errors) rfl
      rw [program, statements_of_notMem first open_, ← program, others, Draft.ofTokens_cons,
        List.append_assoc]
      rfl

end Machine
end Parse

/-- Reading always ends: the machine gives the draft, with no more statements and errors than tokens,
and with at least one exactly if there is a token. -/
theorem Draft.machine_ends (ts : List Token) :
    Parse.Machine.program ⟨ts, []⟩ = some ((ofTokens ts).statements, ⟨[], (ofTokens ts).errors⟩) ∧
      (ofTokens ts).statements.length + (ofTokens ts).errors.length ≤ ts.length ∧
      (1 ≤ (ofTokens ts).statements.length + (ofTokens ts).errors.length ↔ 1 ≤ ts.length) := by
  refine ⟨Parse.Machine.program_run ts [], length_le ts, fun some => ?_, fun some => ?_⟩
  · exact Nat.le_trans some (length_le ts)
  · cases ts with
    | nil => exact absurd some (Nat.not_succ_le_zero 0)
    | cons t rest => exact exists_of_cons t rest

end Script
