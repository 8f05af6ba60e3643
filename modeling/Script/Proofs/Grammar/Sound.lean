import Script.Proofs.Grammar.Replies
import Script.Proofs.Grammar.Strength

/-!
# What is read derives

Every complete reply is a derivation: if a reader builds a tree and stops at a cursor, the tokens up
to and including the cursor are a phrase with that tree.

An expression read at the strength `p` has the level `p.level`, and it was read as far as possible:
what comes next does not bind more strongly than `p`. The loop behind an operand keeps a stronger
invariant, namely the level that the part read so far really has.

The readers call one another on shorter inputs, at the latest when they meet an expression or a
block again. So there is one lemma for each reader that takes these two for granted below some
length, and one induction on the length.
-/

namespace Script
namespace Parse

open Grammar

variable {ts us : List Token}

/-- What comes behind the next token is shorter by two. -/
theorem length_lt_of_tail {t : Token} {rest : List Token} (h : ts.tail = t :: rest) :
    rest.length + 1 < ts.length := by
  cases ts with
  | nil => cases h
  | cons u vs =>
    rw [List.tail_cons] at h
    simp [h]

/-! ## Parameters -/

theorem moreParams_sound {xs : List String} (h : moreParams ts = .done xs us) :
    ts.tail = xs.flatMap (fun x => [.symbol .comma, .ident x]) ++ us.tail := by
  induction size : ts.length using Nat.strongRecOn generalizing ts xs with
  | ind n ih =>
    rw [moreParams_eq] at h
    split at h
    · rename_i comma
      rcases headKind_eq_symbol_iff.1 comma with ⟨rest, follows⟩
      rcases Reply.bind_eq_done_iff.1 h with ⟨x, vs, named, h⟩
      rcases Reply.map_eq_done_iff.1 h with ⟨ys, more, rfl⟩
      rcases nextName_eq_done_iff.1 named with ⟨rfl, others, name⟩
      -- The comma and the name are behind the cursor, so the rest is shorter.
      have shorter : ts.tail.tail.length < n := by
        have lt := length_lt_of_tail follows
        rw [← size, follows]
        exact Nat.lt_of_succ_lt lt
      have read := ih _ shorter more rfl
      rw [name, List.tail_cons] at read
      rw [follows, List.tail_cons] at name
      rw [follows, name, read]
      simp
    · rcases Reply.done_inj.1 h with ⟨rfl, rfl⟩
      simp

theorem params_sound {xs : List String} (h : params ts = .done xs us) :
    ts.tail = paramTokens xs ++ us ∧ ∃ rest, us = .symbol .closeParen :: rest := by
  rw [params_eq] at h
  split at h
  · rename_i close
    rcases Reply.done_inj.1 h with ⟨rfl, rfl⟩
    exact ⟨rfl, headKind_eq_symbol_iff.1 close⟩
  · rcases Reply.bind_eq_done_iff.1 h with ⟨x, vs, named, h⟩
    rcases Reply.bind_eq_done_iff.1 h with ⟨ys, ws, more, h⟩
    rcases Reply.map_eq_done_iff.1 h with ⟨_, close, rfl⟩
    rcases nextName_eq_done_iff.1 named with ⟨rfl, others, name⟩
    rcases next_eq_done_iff.1 close with ⟨rfl, rest, close⟩
    have read := moreParams_sound more
    rw [name, List.tail_cons] at read
    rw [name, read, close]
    exact ⟨rfl, rest, rfl⟩

/-! ## Blocks -/

/-- The statements of a block and the place where they end make a block. -/
theorem derives_block {body : Block} (statements : Derives .statements ts body us)
    (ends : us = [] ∨ ∃ rest, us = .symbol .closeBrace :: rest) :
    Derives .block (.symbol .openBrace :: ts) body us.tail := by
  rcases ends with rfl | ⟨rest, rfl⟩
  · exact .openBlock statements
  · exact .block statements

/-- Behind a sentence that was read as far as possible there is a semicolon, or a token that could
not go on with it. -/
theorem derives_statement {s : Statement} (sentence : Derives .sentence ts s us.tail)
    (follows : (headKind us.tail).precedence ≤ .lowest) :
    Derives .statement ts s (skipSemicolon us).tail := by
  unfold skipSemicolon
  split
  · rename_i semicolon
    rcases headKind_eq_symbol_iff.1 semicolon with ⟨rest, semicolon⟩
    rw [semicolon] at sentence ⊢
    exact .ended sentence
  · rename_i bare
    exact .bare sentence
      (TokenKind.ne_goesOn_iff.2 ⟨TokenKind.precedence_le_lowest_iff.1 follows, bare⟩)

/-! ## Readers of expressions -/

/-- Expressions of less than `n` tokens are read according to the grammar. -/
def ExpressionSound (n : Nat) : Prop :=
  ∀ ⦃p : Precedence⦄ ⦃ts us : List Token⦄ ⦃e : Expr⦄, ts.length < n → p < .call →
    expression p ts = .done e us →
    Derives (.expr p.level) ts e us.tail ∧ (headKind us.tail).precedence ≤ p

/-- Blocks of less than `n` tokens are read according to the grammar, up to their closing brace or
the end of the input. -/
def BlockSound (n : Nat) : Prop :=
  ∀ ⦃ts us : List Token⦄ ⦃body : Block⦄, ts.length < n → block ts = .done body us →
    Derives .statements ts body us ∧ (us = [] ∨ ∃ rest, us = .symbol .closeBrace :: rest)

/-- An expression of the loosest level. -/
theorem ExpressionSound.loosest {n : Nat} (sound : ExpressionSound n) {e : Expr}
    (short : ts.length < n) (h : expression .lowest ts = .done e us) :
    Derives (.expr .equality) ts e us.tail ∧ us.length ≤ ts.length := by
  have le : us.length ≤ ts.length := Step.length_le_of_done (x := expressionStep .lowest ts) h
  have weak : Precedence.lowest < .call := by decide
  rcases sound short weak h with ⟨read, -⟩
  exact ⟨read, le⟩

variable {n : Nat}

theorem moreElements_sound (sound : ExpressionSound n) {es : List Expr} (short : ts.length ≤ n)
    (h : moreElements ts = .done es us) : Derives .moreElements ts.tail es us.tail := by
  induction size : ts.length using Nat.strongRecOn generalizing ts es with
  | ind m ih =>
    rw [moreElements_eq] at h
    split at h
    · rename_i comma
      rcases headKind_eq_symbol_iff.1 comma with ⟨rest, comma⟩
      have shorter := length_lt_of_tail comma
      rw [comma, List.tail_cons] at h
      rcases Reply.bind_eq_done_iff.1 h with ⟨e, vs, first, h⟩
      rcases Reply.map_eq_done_iff.1 h with ⟨others, more, rfl⟩
      -- Behind the comma there is an expression, and the others are read from where it ends.
      rcases sound.loosest (by omega) first with ⟨read, le⟩
      have following := ih vs.length (by omega) (by omega) more rfl
      rw [comma]
      exact .more read following
    · rcases Reply.done_inj.1 h with ⟨rfl, rfl⟩
      exact .noMore

theorem elements_sound (sound : ExpressionSound n) {close : Symbol} {es : List Expr}
    (short : ts.length < n) (h : elements close ts = .done es us) :
    Derives .elements ts es us ∧ ∃ rest, us = .symbol close :: rest := by
  rw [elements_eq] at h
  split at h
  · rename_i empty
    rcases Reply.done_inj.1 h with ⟨rfl, rfl⟩
    exact ⟨.noElements, headKind_eq_symbol_iff.1 empty⟩
  · rcases Reply.bind_eq_done_iff.1 h with ⟨e, vs, first, h⟩
    rcases Reply.bind_eq_done_iff.1 h with ⟨others, ws, more, h⟩
    rcases Reply.map_eq_done_iff.1 h with ⟨_, close, rfl⟩
    rcases next_eq_done_iff.1 close with ⟨rfl, rest, close⟩
    rcases sound.loosest short first with ⟨read, le⟩
    have following := moreElements_sound sound (by omega) more
    exact ⟨.elements read following, rest, close⟩

theorem pairs_sound (sound : ExpressionSound n) {ps : List (Expr × Expr)} (short : ts.length < n)
    (h : pairs ts = .done ps us) :
    Derives .pairs ts ps us ∧ ∃ rest, us = .symbol .closeBrace :: rest := by
  induction size : ts.length using Nat.strongRecOn generalizing ts ps with
  | ind m ih =>
    rw [pairs_eq] at h
    split at h
    · rename_i empty
      rcases Reply.done_inj.1 h with ⟨rfl, rfl⟩
      exact ⟨.noPairs, headKind_eq_symbol_iff.1 empty⟩
    · rcases Reply.bind_eq_done_iff.1 h with ⟨key, vs, first, h⟩
      rcases Reply.bind_eq_done_iff.1 h with ⟨_, ws, colon, h⟩
      rcases next_eq_done_iff.1 colon with ⟨rfl, behind, colon⟩
      -- The key ends at a colon, and the value is read from behind it.
      rcases sound.loosest short first with ⟨keyRead, le⟩
      have shorter := length_lt_of_tail colon
      rw [colon] at keyRead
      rw [colon, List.tail_cons] at h
      rcases Reply.bind_eq_done_iff.1 h with ⟨value, xs, second, h⟩
      rcases sound.loosest (by omega) second with ⟨valueRead, le'⟩
      split at h
      -- The value is the last one if the closing brace is next; otherwise there must be a comma.
      · rename_i last
        rcases Reply.done_inj.1 h with ⟨rfl, rfl⟩
        exact ⟨.lastPair keyRead valueRead, headKind_eq_symbol_iff.1 last⟩
      · rcases Reply.bind_eq_done_iff.1 h with ⟨_, ys, comma, h⟩
        rcases Reply.map_eq_done_iff.1 h with ⟨others, more, rfl⟩
        rcases next_eq_done_iff.1 comma with ⟨rfl, following, comma⟩
        have shorter' := length_lt_of_tail comma
        rw [comma, List.tail_cons] at more
        rw [comma] at valueRead
        rcases ih following.length (by omega) (by omega) more rfl with ⟨read, ends⟩
        exact ⟨.pairs keyRead valueRead read, ends⟩

theorem alternative_sound (sound : BlockSound n) {test e : Expr} {yes : Block}
    (short : ts.length ≤ n) (h : alternative test yes ts = .done e us) :
    (e = .cond test yes none ∧ us = ts) ∨
      ∃ no rest, ts.tail = .keyword .elseWord :: rest ∧ e = .cond test yes (some no) ∧
        Derives .block rest no us.tail := by
  rw [alternative_eq] at h
  split at h
  · rename_i other
    rcases headKind_eq_keyword_iff.1 other with ⟨rest, other⟩
    rcases Reply.bind_eq_done_iff.1 h with ⟨_, vs, brace, h⟩
    rcases Reply.map_eq_done_iff.1 h with ⟨no, branch, rfl⟩
    rcases next_eq_done_iff.1 brace with ⟨rfl, behind, brace⟩
    rw [other, List.tail_cons] at brace
    rw [other, List.tail_cons, brace, List.tail_cons] at branch
    -- The branch is read from behind its brace, two tokens on from the cursor.
    have shorter := length_lt_of_tail other
    rw [brace, List.length_cons] at shorter
    rcases sound (by omega) branch with ⟨read, ends⟩
    refine .inr ⟨no, rest, other, rfl, ?_⟩
    rw [brace]
    exact derives_block read ends
  · rcases Reply.done_inj.1 h with ⟨rfl, rfl⟩
    exact .inl ⟨rfl, rfl⟩

theorem resumed_sound (sound : ExpressionSound n) {k : Continuation} {start : List Token}
    {left e : Expr} (short : ts.length < n)
    (read : Derives (.expr k.level) start left (.symbol k.symbol :: ts))
    (h : resumed k left ts = .done e us) :
    Derives (.expr k.level) start e us.tail ∧
      (headKind us.tail).precedence ≤ k.level.strength := by
  rw [resumed_eq] at h
  cases k with
  | operator op =>
    rcases Reply.map_eq_done_iff.1 h with ⟨right, inner, rfl⟩
    -- The right operand is read at the strength of the operator, so its level is one tighter.
    rcases sound short op.precedence_lt_call inner with ⟨second, follows⟩
    rw [op.level_precedence] at second
    rw [← op.strength_level] at follows
    exact ⟨.binary read second, follows⟩
  | call =>
    rcases Reply.map_eq_done_iff.1 h with ⟨args, inner, rfl⟩
    rcases elements_sound sound short inner with ⟨given, others, rfl⟩
    exact ⟨.call read given, TokenKind.precedence_le_index _⟩
  | index =>
    rcases Reply.bind_eq_done_iff.1 h with ⟨i, vs, inner, h⟩
    rcases Reply.map_eq_done_iff.1 h with ⟨_, close, rfl⟩
    rcases next_eq_done_iff.1 close with ⟨rfl, others, close⟩
    rcases sound.loosest short inner with ⟨position, -⟩
    rw [close] at position ⊢
    exact ⟨.index read position, TokenKind.precedence_le_index _⟩

/-- The loop keeps what is read so far, its level, and that nothing behind it binds more strongly
than that level allows. -/
theorem continued_sound (sound : ExpressionSound n) {p : Precedence} {l : Level}
    {start : List Token} {left e : Expr} (short : ts.length ≤ n) (weak : p < .call)
    (tight : p.level ≤ l) (read : Derives (.expr l) start left ts.tail)
    (follows : (headKind ts.tail).precedence ≤ l.strength)
    (h : continued p left ts = .done e us) :
    Derives (.expr p.level) start e us.tail ∧ (headKind us.tail).precedence ≤ p := by
  induction size : ts.length using Nat.strongRecOn generalizing ts left l with
  | ind m ih =>
    -- The loop ends where what comes next is too weak for `p`, or is no continuation at all.
    by_cases stops : (headKind ts.tail).precedence ≤ p
    · rw [continued_of_le stops] at h
      rcases Reply.done_inj.1 h with ⟨rfl, rfl⟩
      exact ⟨read.loosen tight, stops⟩
    · rcases told : (headKind ts.tail).continuation? with _ | k
      · rw [TokenKind.precedence_of_none told] at stops
        exact absurd p.lowest_le stops
      · rw [TokenKind.precedence_of_some told] at stops follows
        have stronger : p < k.precedence := Nat.not_le.1 stops
        rcases headKind_eq_symbol_iff.1 (TokenKind.continuation?_eq_some_iff.1 told) with
          ⟨rest, opens⟩
        have shorter := length_lt_of_tail opens
        rw [continued_of_lt opens stronger] at h
        rcases Reply.bind_eq_done_iff.1 h with ⟨longer, vs, once, others⟩
        have le : vs.length ≤ rest.length :=
          Step.length_le_of_done (x := resumedStep k left rest) once
        -- The part read so far is tight enough to stand in front of what comes next.
        rw [opens] at read
        have loosened := read.loosen ((Continuation.precedence_le_iff k l).1 follows)
        rcases resumed_sound sound (by omega) loosened once with ⟨read, follows⟩
        -- The longer expression has the level of the continuation, which `p` lets in.
        have tight : p.level ≤ k.level := (Precedence.lt_iff_level_le weak k).1 stronger
        exact ih vs.length (by omega) (by omega) tight read follows others rfl

theorem operand_fn_sound (sound : BlockSound n) {rest : List Token} {e : Expr}
    (short : rest.length < n) (h : operand (.keyword .fnWord :: rest) = .done e us) :
    Derives (.expr .atom) (.keyword .fnWord :: rest) e us.tail := by
  rw [operand_eq] at h
  rcases Reply.bind_eq_done_iff.1 h with ⟨_, vs, opened, others⟩
  rcases next_eq_done_iff.1 opened with ⟨start, inside, opened⟩
  rw [List.tail_cons] at start opened
  subst start
  rcases Reply.bind_eq_done_iff.1 others with ⟨xs, ws, named, others⟩
  rcases Reply.bind_eq_done_iff.1 others with ⟨_, ys, brace, others⟩
  rcases Reply.map_eq_done_iff.1 others with ⟨body, inner, rfl⟩
  rcases next_eq_done_iff.1 brace with ⟨rfl, behind, brace⟩
  -- No part goes back, so the body is shorter than the whole.
  have le : ws.length ≤ vs.length := Step.length_le_of_done (x := paramsStep vs) named
  have shorter := length_lt_of_tail brace
  rcases params_sound named with ⟨names, following, rfl⟩
  rw [List.tail_cons] at brace
  rw [opened, List.tail_cons] at names
  rw [List.tail_cons, brace, List.tail_cons] at inner
  rcases sound (by omega) inner with ⟨read, ends⟩
  rw [opened, names, brace]
  exact .fn (derives_block read ends)

theorem operand_if_sound (expressions : ExpressionSound n) (blocks : BlockSound n)
    {rest : List Token} {e : Expr} (short : rest.length < n)
    (h : operand (.keyword .ifWord :: rest) = .done e us) :
    Derives (.expr .atom) (.keyword .ifWord :: rest) e us.tail := by
  rw [operand_eq] at h
  rcases Reply.bind_eq_done_iff.1 h with ⟨_, vs, opened, others⟩
  rcases next_eq_done_iff.1 opened with ⟨start, inside, opened⟩
  rw [List.tail_cons] at start opened
  subst start
  rw [opened, List.length_cons] at short
  rw [opened, List.tail_cons] at others
  rcases Reply.bind_eq_done_iff.1 others with ⟨test, ws, inner, others⟩
  rcases Reply.bind_eq_done_iff.1 others with ⟨_, xs, close, others⟩
  rcases Reply.bind_eq_done_iff.1 others with ⟨_, ys, brace, others⟩
  rcases Reply.bind_eq_done_iff.1 others with ⟨yes, zs, branch, other⟩
  rcases next_eq_done_iff.1 close with ⟨rfl, behind, close⟩
  rcases next_eq_done_iff.1 brace with ⟨rfl, body, brace⟩
  rcases expressions.loosest (by omega) inner with ⟨read, le⟩
  have shorter := length_lt_of_tail close
  rw [close, List.tail_cons] at brace
  rw [close, List.tail_cons, brace, List.tail_cons] at branch
  rw [brace, List.length_cons] at shorter
  rw [close, brace] at read
  -- The second branch starts no earlier than the first one ends.
  have le' : zs.length ≤ body.length := Step.length_le_of_done (x := blockStep body) branch
  rcases blocks (by omega) branch with ⟨first, ends⟩
  have taken := derives_block first ends
  rw [opened]
  rcases alternative_sound blocks (by omega) other with
    ⟨rfl, rfl⟩ | ⟨no, following, otherwise, rfl, second⟩
  · exact .cond read taken
  · rw [otherwise] at taken
    exact .condElse read taken second

/-- An operand is an atom, or a prefix operator in front of an expression that binds as strongly. -/
theorem operand_sound (expressions : ExpressionSound n) (blocks : BlockSound n) {e : Expr}
    (short : ts.length ≤ n) (h : operand ts = .done e us) :
    ∃ l, .unary ≤ l ∧ Derives (.expr l) ts e us.tail ∧
      (headKind us.tail).precedence ≤ l.strength := by
  have atom {e : Expr} {us : List Token} (read : Derives (.expr .atom) ts e us.tail) :
      ∃ l, .unary ≤ l ∧ Derives (.expr l) ts e us.tail ∧
        (headKind us.tail).precedence ≤ l.strength :=
    ⟨.atom, by decide, read, TokenKind.precedence_le_index _⟩
  -- All operands but those of a prefix operator are atoms, behind which anything may come.
  have weak : Precedence.unary < .call := by decide
  have whole := h
  rw [operand_eq] at h
  split at h
  case h_2 x rest =>
    rcases Reply.done_inj.1 h with ⟨rfl, rfl⟩
    exact atom .name
  case h_3 digits rest =>
    split at h
    · rename_i n value
      rcases Reply.done_inj.1 h with ⟨rfl, rfl⟩
      exact atom (.int (Integer.ofLiteral?_eq_some_iff.1 value))
    · exact absurd h Reply.fail_ne_done
  case h_4 text rest =>
    rcases Reply.done_inj.1 h with ⟨rfl, rfl⟩
    exact atom .str
  case h_5 rest =>
    rcases Reply.done_inj.1 h with ⟨rfl, rfl⟩
    exact atom .true
  case h_6 rest =>
    rcases Reply.done_inj.1 h with ⟨rfl, rfl⟩
    exact atom .false
  case h_7 rest =>
    rcases Reply.map_eq_done_iff.1 h with ⟨a, inner, rfl⟩
    rcases expressions short weak inner with ⟨read, follows⟩
    have derived : Derives (.expr .unary) _ (.unary .not a) _ := .unary read
    exact ⟨.unary, Level.le_refl _, derived, follows⟩
  case h_8 rest =>
    rcases Reply.map_eq_done_iff.1 h with ⟨a, inner, rfl⟩
    rcases expressions short weak inner with ⟨read, follows⟩
    have derived : Derives (.expr .unary) _ (.unary .negate a) _ := .unary read
    exact ⟨.unary, Level.le_refl _, derived, follows⟩
  case h_9 rest =>
    rcases Reply.bind_eq_done_iff.1 h with ⟨a, vs, inner, h⟩
    rcases Reply.map_eq_done_iff.1 h with ⟨_, close, rfl⟩
    rcases next_eq_done_iff.1 close with ⟨rfl, others, close⟩
    rcases expressions.loosest short inner with ⟨read, -⟩
    rw [close] at read ⊢
    exact ⟨.atom, by decide, .group read, TokenKind.precedence_le_index _⟩
  case h_10 rest =>
    rcases Reply.map_eq_done_iff.1 h with ⟨es, inner, rfl⟩
    rcases elements_sound expressions short inner with ⟨read, others, rfl⟩
    exact atom (.array read)
  case h_11 rest =>
    rcases Reply.map_eq_done_iff.1 h with ⟨ps, inner, rfl⟩
    rcases pairs_sound expressions short inner with ⟨read, others, rfl⟩
    exact atom (.hash read)
  case h_12 rest =>
    -- The reading of a function and of a condition has many steps, so each has a lemma of its own.
    exact atom (operand_fn_sound blocks short whole)
  case h_13 rest =>
    exact atom (operand_if_sound expressions blocks short whole)
  all_goals exact absurd h Reply.fail_ne_done

/-! ## Readers of statements -/

theorem statement_sound (sound : ExpressionSound n) {s : Statement} (short : ts.length < n)
    (h : statement ts = .done s us) : Derives .statement ts s us.tail := by
  have weak : Precedence.lowest < .call := by decide
  rw [statement_eq] at h
  split at h
  case h_1 rest =>
    rw [List.length_cons] at short
    rcases Reply.bind_eq_done_iff.1 h with ⟨x, vs, named, h⟩
    rcases Reply.bind_eq_done_iff.1 h with ⟨_, ws, assign, h⟩
    rcases nextName_eq_done_iff.1 named with ⟨rfl, behind, name⟩
    rcases next_eq_done_iff.1 assign with ⟨rfl, body, assign⟩
    rw [List.tail_cons] at name
    rw [name, List.tail_cons] at assign
    rw [name, List.tail_cons, assign, List.tail_cons] at h
    -- The value is read from behind the name and the equals sign.
    rw [name, assign, List.length_cons, List.length_cons] at short
    rcases Reply.bind_eq_done_iff.1 h with ⟨value, xs, inner, h⟩
    rcases Reply.done_inj.1 h with ⟨rfl, rfl⟩
    rcases sound (by omega) weak inner with ⟨read, follows⟩
    rw [name, assign]
    exact derives_statement (.bind read) follows
  case h_2 rest =>
    rcases Reply.bind_eq_done_iff.1 h with ⟨value, vs, inner, h⟩
    rcases Reply.done_inj.1 h with ⟨rfl, rfl⟩
    rcases sound (Nat.lt_of_succ_lt short) weak inner with ⟨read, follows⟩
    exact derives_statement (.leave read) follows
  case h_3 =>
    rcases Reply.bind_eq_done_iff.1 h with ⟨value, vs, inner, h⟩
    rcases Reply.done_inj.1 h with ⟨rfl, rfl⟩
    rcases sound short weak inner with ⟨read, follows⟩
    exact derives_statement (.expr read) follows

theorem block_sound (sound : ExpressionSound n) : BlockSound n := by
  intro ts us body short h
  induction size : ts.length using Nat.strongRecOn generalizing ts body with
  | ind m ih =>
    rw [block_eq] at h
    split at h
    · rename_i ends
      rcases Reply.done_inj.1 h with ⟨rfl, rfl⟩
      rcases ends with close | atEnd
      · exact ⟨.noStatements, .inr (headKind_eq_symbol_iff.1 close)⟩
      · exact ⟨.noStatements, .inl (headKind_eq_eof_iff.1 atEnd)⟩
    · rename_i more
      rcases Reply.collect_eq_done_iff.1 h with ⟨s, vs, others, first, following, rfl⟩
      have le : vs.length ≤ ts.length := Step.length_le_of_done (x := statementStep ts) first
      -- The reader of a statement may stop where it started, but the block then skips a token.
      have shorter : vs.tail.length < ts.length := by
        cases ts with
        | nil => simp at more
        | cons t rest =>
          rw [List.length_tail, List.length_cons] at *
          omega
      rcases ih vs.tail.length (by omega) (by omega) following rfl with ⟨read, ends⟩
      exact ⟨.statements (statement_sound sound short first) read, ends⟩

/-! ## All readers -/

/-- The induction on the length. -/
theorem expression_sound (n : Nat) : ExpressionSound n := by
  induction n with
  | zero =>
    intro p ts us e short
    exact absurd short (Nat.not_lt_zero _)
  | succ n ih =>
    intro p ts us e short weak h
    rw [expression_eq] at h
    rcases Reply.bind_eq_done_iff.1 h with ⟨left, vs, first, others⟩
    have le : vs.length ≤ ts.length := Step.length_le_of_done (x := operandStep ts) first
    rcases operand_sound ih (block_sound ih) (by omega) first with ⟨l, tight, read, follows⟩
    -- The loop starts with the level of the operand, which is tight enough for every `p` in question.
    have loose : p.level ≤ .unary := by
      revert weak
      cases p <;> decide
    exact continued_sound ih (by omega) weak (Level.le_trans loose tight) read follows others

end Parse

/-! ## Programs -/

theorem Draft.ofTokens_cons (t : Token) (rest : List Token) :
    ofTokens (t :: rest) =
      ⟨(Parse.statement (t :: rest)).built
          ++ (ofTokens (Parse.statement (t :: rest)).cursor.tail).statements,
        (Parse.statement (t :: rest)).errors
          ++ (ofTokens (Parse.statement (t :: rest)).cursor.tail).errors⟩ := by
  rw [ofTokens]

/-- A draft without errors is a derivation of its statements. -/
theorem Draft.derives_of_errors {ts : List Token} (h : (ofTokens ts).errors = []) :
    Grammar.Derives .statements ts (ofTokens ts).statements [] := by
  induction size : ts.length using Nat.strongRecOn generalizing ts with
  | ind n ih =>
    cases ts with
    | nil =>
      rw [ofTokens]
      exact .noStatements
    | cons t rest =>
      rw [ofTokens_cons] at h ⊢
      simp only [List.append_eq_nil_iff] at h
      rcases h with ⟨first, others⟩
      -- Nothing was recorded in the first statement, so it was read as a whole.
      rcases Reply.errors_eq_nil_iff.1 first with ⟨s, read⟩
      have le := Parse.length_statement_le (t :: rest)
      rw [List.length_cons] at le size
      have shorter : (Parse.statement (t :: rest)).cursor.tail.length < n := by
        rw [List.length_tail]
        omega
      have derives := ih _ shorter others rfl
      have statement :=
        Parse.statement_sound (Parse.expression_sound (rest.length + 2)) (Nat.lt_succ_self _) read
      have built : (Parse.statement (t :: rest)).built = [s] := by
        rw [read]
        rfl
      rw [built]
      exact .statements statement derives

end Script
