import Script.Proofs.Errors.Begun
import Script.Proofs.Errors.First
import Script.Proofs.Grammar.Sound

/-!
# What is read in front of an error has begun a phrase

Where a reader comes to its first error, everything in front of the token to blame has begun the
phrase that the reader reads. The parts that it read before are complete, so by soundness they are
phrases, and the part that it is stuck in has begun.

As for soundness there is one lemma for each reader, which takes expressions for granted below some
length, and one induction on the length.
-/

namespace Script

open Grammar

namespace Parse

variable {ts us : List Token} {d : Diagnostic}

/-! ## Single tokens -/

theorem next_stuck {kind : TokenKind} (h : (next kind ts).first? = some d) :
    Blames d ts.tail := by
  rw [next_eq] at h
  split at h
  · cases h
  · rw [Reply.first?_fail, Option.some.injEq] at h
    exact h ▸ ⟨rfl, rfl⟩

theorem nextName_stuck (h : (nextName ts).first? = some d) : Blames d ts.tail := by
  by_cases named : headKind ts.tail = .ident
  · rcases headKind_eq_ident_iff.1 named with ⟨x, rest, follows⟩
    rw [nextName_eq_done_iff.2 ⟨rfl, rest, follows⟩] at h
    cases h
  · rw [nextName_of_ne named, Reply.first?_fail, Option.some.injEq] at h
    exact h ▸ ⟨rfl, rfl⟩

/-! ## Parameters -/

/-- Only a name can be missing, behind a comma. -/
theorem moreParams_stuck (h : (moreParams ts).first? = some d) :
    ∃ (xs : List String) (rest : List Token), ts.tail =
        xs.flatMap (fun x => [.symbol .comma, .ident x]) ++ .symbol .comma :: rest ∧
      Blames d rest := by
  induction size : ts.length using Nat.strongRecOn generalizing ts with
  | ind n ih =>
    rw [moreParams_eq] at h
    split at h
    · rename_i comma
      rcases headKind_eq_symbol_iff.1 comma with ⟨rest, follows⟩
      rcases Reply.first?_bind.1 h with missing | ⟨x, vs, named, more⟩
      · have blames := nextName_stuck missing
        rw [follows, List.tail_cons] at blames
        exact ⟨[], rest, follows, blames⟩
      · rw [Reply.first?_map] at more
        rcases nextName_eq_done_iff.1 named with ⟨rfl, others, name⟩
        have shorter : ts.tail.tail.length < n := by
          have lt := length_lt_of_tail follows
          rw [← size, follows]
          exact Nat.lt_of_succ_lt lt
        rcases ih _ shorter more rfl with ⟨xs, rest', read, blames⟩
        rw [name, List.tail_cons] at read
        rw [follows, List.tail_cons] at name
        refine ⟨x :: xs, rest', ?_, blames⟩
        rw [follows, name, read]
        simp
    · cases h

/-- The parameters can go on to the closing parenthesis. -/
theorem params_stuck (h : (params ts).first? = some d) :
    ∃ run rest xs more, ts.tail = run ++ rest ∧ Blames d rest ∧ Lexical more ∧
      run ++ more = paramTokens xs ++ [.symbol .closeParen] := by
  rw [params_eq] at h
  split at h
  · cases h
  · rcases Reply.first?_bind.1 h with missing | ⟨x, vs, named, h⟩
    · exact ⟨[], ts.tail, [], [.symbol .closeParen], rfl, nextName_stuck missing, by decide, rfl⟩
    · rcases nextName_eq_done_iff.1 named with ⟨rfl, others, name⟩
      rcases Reply.first?_bind.1 h with missing | ⟨xs, ws, more, h⟩
      · rcases moreParams_stuck missing with ⟨xs, rest, read, blames⟩
        rw [name, List.tail_cons] at read
        refine ⟨.ident x :: (xs.flatMap (fun x => [.symbol .comma, .ident x]) ++ [.symbol .comma]),
          rest, x :: (xs ++ ["x"]), [.ident "x", .symbol .closeParen], ?_, blames, by decide, ?_⟩
        · rw [name, read]
          simp
        · simp [paramTokens]
      · rw [Reply.first?_map] at h
        have read := moreParams_sound more
        rw [name, List.tail_cons] at read
        refine ⟨paramTokens (x :: xs), ws.tail, x :: xs, [.symbol .closeParen], ?_, next_stuck h,
          by decide, rfl⟩
        rw [name, read]
        rfl

/-! ## Readers of expressions -/

/-- Expressions of less than `n` tokens have begun in front of their first error. -/
def ExpressionStuck (n : Nat) : Prop :=
  ∀ ⦃p : Precedence⦄ ⦃ts : List Token⦄ ⦃d : Diagnostic⦄, ts.length < n → p < .call →
    (expression p ts).first? = some d → Stuck (.expr p.level) ts d

/-- Blocks of less than `n` tokens have begun in front of their first error. -/
def BlockStuck (n : Nat) : Prop :=
  ∀ ⦃ts : List Token⦄ ⦃d : Diagnostic⦄, ts.length < n → (block ts).first? = some d →
    Stuck .statements ts d

theorem ExpressionStuck.loosest {n : Nat} (stuck : ExpressionStuck n) (short : ts.length < n)
    (h : (expression .lowest ts).first? = some d) : Stuck (.expr .equality) ts d :=
  stuck short (by decide) h

theorem expression_loosest {e : Expr} (h : expression .lowest ts = .done e us) :
    Derives (.expr .equality) ts e us.tail ∧ us.length ≤ ts.length :=
  (expression_sound (ts.length + 1)).loosest (Nat.lt_succ_self _) h

/-- A block that is stuck, with its opening brace. -/
theorem stuck_block (h : Stuck .statements ts d) : Stuck .block (.symbol .openBrace :: ts) d :=
  h.within [.symbol .openBrace] [.symbol .closeBrace] (by decide)
    fun _ _ _ derives => ⟨_, .block derives⟩

variable {n : Nat}

/-- A block in its braces, or what stands in the place of its opening brace. -/
theorem braced_stuck {α : Type} {f : Block → List Token → Reply α} (stuck : BlockStuck n)
    (short : ts.length ≤ n)
    (h : ((next (.symbol .openBrace) ts).bind fun _ us => (block us.tail).bind f).first? = some d) :
    Stuck .block ts.tail d ∨ ∃ rest body us, ts.tail = .symbol .openBrace :: rest ∧
      block rest = .done body us ∧ (f body us).first? = some d := by
  rcases Reply.first?_bind.1 h with missing | ⟨_, vs, brace, h⟩
  · exact .inl (.here [] .block (next_stuck missing))
  · rcases next_eq_done_iff.1 brace with ⟨rfl, rest, brace⟩
    have shorter := length_lt_of_tail brace
    rw [brace, List.tail_cons] at h
    rcases Reply.first?_bind.1 h with inner | ⟨body, us, inner, others⟩
    · rw [brace]
      exact .inl (stuck_block (stuck (by omega) inner))
    · exact .inr ⟨rest, body, us, brace, inner, others⟩

/-- A block in its braces that ends a phrase. -/
theorem lastBlock_stuck {α : Type} {f : Block → α} (stuck : BlockStuck n) (short : ts.length ≤ n)
    (h : ((next (.symbol .openBrace) ts).bind fun _ us => (block us.tail).map f).first? = some d) :
    Stuck .block ts.tail d := by
  simp only [Reply.map_eq_bind] at h
  rcases braced_stuck stuck short h with inner | ⟨rest, body, us, -, -, complete⟩
  · exact inner
  · cases complete

theorem moreElements_stuck (stuck : ExpressionStuck n) (short : ts.length ≤ n)
    (h : (moreElements ts).first? = some d) : Stuck .moreElements ts.tail d := by
  induction size : ts.length using Nat.strongRecOn generalizing ts with
  | ind m ih =>
    rw [moreElements_eq] at h
    split at h
    · rename_i comma
      rcases headKind_eq_symbol_iff.1 comma with ⟨rest, comma⟩
      have shorter := length_lt_of_tail comma
      rw [comma, List.tail_cons] at h
      rw [comma]
      rcases Reply.first?_bind.1 h with first | ⟨e, vs, first, more⟩
      · exact (stuck.loosest (by omega) first).within [.symbol .comma] [] (by decide)
          fun _ _ _ derives => ⟨_, .more derives .noMore⟩
      · rw [Reply.first?_map] at more
        rcases expression_loosest first with ⟨read, le⟩
        exact .after [] read (ih vs.length (by omega) (by omega) more rfl)
          [.symbol .comma] [] (by decide) fun _ _ _ _ first others => ⟨_, .more first others⟩
    · cases h

theorem elements_stuck (stuck : ExpressionStuck n) {close : Symbol} (short : ts.length < n)
    (h : (elements close ts).first? = some d) : Stuck .elements ts d := by
  rw [elements_eq] at h
  split at h
  · cases h
  · rcases Reply.first?_bind.1 h with first | ⟨e, vs, first, h⟩
    · exact (stuck.loosest short first).within [] [] (by decide)
        fun _ _ _ derives => ⟨_, .elements derives .noMore⟩
    · rcases expression_loosest first with ⟨read, le⟩
      rcases Reply.first?_bind.1 h with more | ⟨es, ws, more, h⟩
      · exact .after [] read (moreElements_stuck stuck (by omega) more) [] []
          (by decide) fun _ _ _ _ first others => ⟨_, .elements first others⟩
      · rw [Reply.first?_map] at h
        have others := moreElements_sound (expression_sound _) (Nat.le_refl _) more
        exact .behind (.elements read others) (next_stuck h)

/-- An expression that can be a key is a pair as soon as it has a value. -/
theorem derives_pair {key : Expr} {rest : List Token}
    (h : Derives (.expr .equality) ts key (.symbol .colon :: .ident "x" :: rest)) :
    Derives .pairs ts [(key, .name "x")] rest :=
  .lastPair h (Derives.name.loosen (by decide))

theorem pairs_stuck (stuck : ExpressionStuck n) (short : ts.length < n)
    (h : (pairs ts).first? = some d) : Stuck .pairs ts d := by
  induction size : ts.length using Nat.strongRecOn generalizing ts with
  | ind m ih =>
    -- A key goes on with a colon and a value.
    have lonely {ts : List Token} (h : Stuck (.expr .equality) ts d) : Stuck .pairs ts d :=
      h.within [] [.symbol .colon, .ident "x"] (by decide)
        fun _ _ _ derives => ⟨_, derives_pair derives⟩
    rw [pairs_eq] at h
    split at h
    · cases h
    · rcases Reply.first?_bind.1 h with first | ⟨key, vs, first, h⟩
      · exact lonely (stuck.loosest short first)
      · rcases expression_loosest first with ⟨keyRead, le⟩
        rcases Reply.first?_bind.1 h with missing | ⟨_, ws, colon, h⟩
        · exact lonely (.behind keyRead (next_stuck missing))
        · rcases next_eq_done_iff.1 colon with ⟨rfl, rest, colon⟩
          have shorter := length_lt_of_tail colon
          rw [colon] at keyRead
          rw [colon, List.tail_cons] at h
          rcases Reply.first?_bind.1 h with second | ⟨value, xs, second, h⟩
          · exact .after [.symbol .colon] keyRead (stuck.loosest (by omega) second)
              [] [] (by decide) fun _ _ _ _ key value => ⟨_, .lastPair key value⟩
          · rcases expression_loosest second with ⟨valueRead, le'⟩
            split at h
            · cases h
            · rcases Reply.first?_bind.1 h with missing | ⟨_, ys, comma, h⟩
              · exact .behind (.lastPair keyRead valueRead) (next_stuck missing)
              · rcases next_eq_done_iff.1 comma with ⟨rfl, others, comma⟩
                have shorter' := length_lt_of_tail comma
                rw [Reply.first?_map, comma, List.tail_cons] at h
                rw [comma] at valueRead
                have more := ih others.length (by omega) (by omega) h rfl
                rcases keyRead.run with ⟨run, rfl, keyRun⟩
                have whole : Stuck .pairs (run ++ [.symbol .colon] ++ rest) d := by
                  refine .after [.symbol .comma] valueRead more _ [] (by decide)
                    fun ts _ _ _ value others => ?_
                  have key := keyRun.moved (.symbol .colon :: ts) rfl
                  exact ⟨_, by simpa using Derives.pairs key value others⟩
                simpa using whole

/-- The second branch, behind its keyword. -/
theorem alternative_stuck (stuck : BlockStuck n) {test : Expr} {yes : Block}
    (short : ts.length ≤ n) (h : (alternative test yes ts).first? = some d) :
    ∃ rest, ts.tail = .keyword .elseWord :: rest ∧ Stuck .block rest d := by
  rw [alternative_eq] at h
  split at h
  · rename_i other
    rcases headKind_eq_keyword_iff.1 other with ⟨rest, other⟩
    have shorter := length_lt_of_tail other
    have branch := lastBlock_stuck stuck (by rw [other, List.length_cons]; omega) h
    rw [other, List.tail_cons] at branch
    exact ⟨rest, other, branch⟩
  · cases h

theorem resumed_stuck (stuck : ExpressionStuck n) {k : Continuation} {start : List Token}
    {left : Expr} (short : ts.length < n)
    (read : Derives (.expr k.level) start left (.symbol k.symbol :: ts))
    (h : (resumed k left ts).first? = some d) : Stuck (.expr k.level) start d := by
  rw [resumed_eq] at h
  cases k with
  | operator op =>
    rw [Reply.first?_map] at h
    have right := stuck short op.precedence_lt_call h
    rw [op.level_precedence] at right
    exact .after [.symbol op.symbol] read right [] [] (by decide)
      fun _ _ _ _ left right => ⟨_, .binary left right⟩
  | call =>
    rw [Reply.first?_map] at h
    exact .after [.symbol .openParen] read (elements_stuck stuck short h) [] [.symbol .closeParen]
      (by decide) fun _ _ _ _ callee given => ⟨_, .call callee given⟩
  | index =>
    have position : Stuck (.expr .equality) ts d := by
      rcases Reply.first?_bind.1 h with inner | ⟨i, vs, inner, missing⟩
      · exact stuck.loosest short inner
      · rw [Reply.first?_map] at missing
        exact .behind (expression_loosest inner).1 (next_stuck missing)
    exact .after [.symbol .openBracket] read position [] [.symbol .closeBracket] (by decide)
      fun _ _ _ _ collection position => ⟨_, .index collection position⟩

/-- The loop behind an operand. What is read so far is complete, with the level it has. -/
theorem continued_stuck (stuck : ExpressionStuck n) {p : Precedence} {l : Level}
    {start : List Token} {left : Expr} (short : ts.length ≤ n) (weak : p < .call)
    (tight : p.level ≤ l) (read : Derives (.expr l) start left ts.tail)
    (follows : (headKind ts.tail).precedence ≤ l.strength)
    (h : (continued p left ts).first? = some d) : Stuck (.expr p.level) start d := by
  induction size : ts.length using Nat.strongRecOn generalizing ts left l with
  | ind m ih =>
    by_cases stops : (headKind ts.tail).precedence ≤ p
    · rw [continued_of_le stops] at h
      cases h
    · rcases told : (headKind ts.tail).continuation? with _ | k
      · rw [TokenKind.precedence_of_none told] at stops
        exact absurd p.lowest_le stops
      · rw [TokenKind.precedence_of_some told] at stops follows
        have stronger : p < k.precedence := Nat.not_le.1 stops
        have tight : p.level ≤ k.level := (Precedence.lt_iff_level_le weak k).1 stronger
        rcases headKind_eq_symbol_iff.1 (TokenKind.continuation?_eq_some_iff.1 told) with
          ⟨rest, opens⟩
        have shorter := length_lt_of_tail opens
        rw [continued_of_lt opens stronger] at h
        rw [opens] at read
        have loosened := read.loosen ((Continuation.precedence_le_iff k l).1 follows)
        rcases Reply.first?_bind.1 h with once | ⟨longer, vs, once, others⟩
        · exact (resumed_stuck stuck (by omega) loosened once).loosen tight
        · have le : vs.length ≤ rest.length :=
            Step.length_le_of_done (x := resumedStep k left rest) once
          rcases resumed_sound (expression_sound _) (Nat.lt_succ_self _) loosened once with
            ⟨read, follows⟩
          exact ih vs.length (by omega) (by omega) tight read follows others rfl

/-- The parameters of a function and their closing parenthesis have begun the function. -/
theorem begun_fn (xs : List String) :
    Begun (.expr .atom)
      (.keyword .fnWord :: .symbol .openParen :: (paramTokens xs ++ [.symbol .closeParen])) := by
  have whole : Begun (.expr .atom) ((.keyword .fnWord :: .symbol .openParen ::
      (paramTokens xs ++ [.symbol .closeParen])) ++ []) := by
    refine Begun.block.within _ [] (by decide) fun ts body rest derives => ⟨.fn xs body, ?_⟩
    simpa using Derives.fn derives
  rwa [List.append_nil] at whole

theorem operand_fn_stuck (stuck : BlockStuck n) {rest : List Token} (short : rest.length < n)
    (h : (operand (.keyword .fnWord :: rest)).first? = some d) :
    Stuck (.expr .atom) (.keyword .fnWord :: rest) d := by
  rw [operand_eq] at h
  rcases Reply.first?_bind.1 h with missing | ⟨_, vs, opened, others⟩
  · exact .here [.keyword .fnWord] (.of_append (by decide) (begun_fn [])) (next_stuck missing)
  · rcases next_eq_done_iff.1 opened with ⟨start, inside, opened⟩
    rw [List.tail_cons] at start opened
    subst start opened
    rcases Reply.first?_bind.1 others with names | ⟨xs, ws, names, others⟩
    · rcases params_stuck names with ⟨run, rest, xs, more, read, blames, lexical, whole⟩
      rw [List.tail_cons] at read
      subst read
      refine .here (.keyword .fnWord :: .symbol .openParen :: run) (.of_append lexical ?_) blames
      rw [List.cons_append, List.cons_append, whole]
      exact begun_fn xs
    · have le : ws.length ≤ (Token.symbol .openParen :: inside).length :=
        Step.length_le_of_done (x := paramsStep (.symbol .openParen :: inside)) names
      have body := lastBlock_stuck stuck (by omega) others
      rcases params_sound names with ⟨read, following, rfl⟩
      rw [List.tail_cons] at read body
      have whole : Stuck (.expr .atom) ((.keyword .fnWord :: .symbol .openParen ::
          (paramTokens xs ++ [.symbol .closeParen])) ++ following) d := by
        refine body.within _ [] (by decide) fun ts body rest derives => ⟨.fn xs body, ?_⟩
        simpa using Derives.fn derives
      rw [read]
      simpa using whole

/-- A condition that has begun with its test. -/
theorem begun_test {run : List Token} (h : Begun (.expr .equality) run) :
    Begun (.expr .atom) (.keyword .ifWord :: .symbol .openParen :: run) :=
  h.within [.keyword .ifWord, .symbol .openParen]
    [.symbol .closeParen, .symbol .openBrace, .symbol .closeBrace] (by decide)
    fun _ _ _ derives => ⟨_, .cond derives (.block .noStatements)⟩

theorem stuck_test (h : Stuck (.expr .equality) ts d) :
    Stuck (.expr .atom) (.keyword .ifWord :: .symbol .openParen :: ts) d := by
  rcases h with ⟨run, rest, rfl, blames, begun⟩
  exact .here (.keyword .ifWord :: .symbol .openParen :: run) (begun_test begun) blames

theorem operand_if_stuck (expressions : ExpressionStuck n) (blocks : BlockStuck n)
    {rest : List Token} (short : rest.length < n)
    (h : (operand (.keyword .ifWord :: rest)).first? = some d) :
    Stuck (.expr .atom) (.keyword .ifWord :: rest) d := by
  rw [operand_eq] at h
  rcases Reply.first?_bind.1 h with missing | ⟨_, vs, opened, others⟩
  · have begun : Begun (.expr .atom) ([.keyword .ifWord] ++ [.symbol .openParen]) :=
      begun_test (.expr .equality)
    exact .here [.keyword .ifWord] (.of_append (by decide) begun) (next_stuck missing)
  · rcases next_eq_done_iff.1 opened with ⟨start, inside, opened⟩
    rw [List.tail_cons] at start opened
    subst start opened
    rw [List.length_cons] at short
    rw [List.tail_cons] at others
    rcases Reply.first?_bind.1 others with inner | ⟨test, ws, inner, others⟩
    · exact stuck_test (expressions.loosest (by omega) inner)
    · rcases expression_loosest inner with ⟨read, le⟩
      rcases Reply.first?_bind.1 others with missing | ⟨_, xs, close, others⟩
      · exact stuck_test (.behind read (next_stuck missing))
      · rcases next_eq_done_iff.1 close with ⟨rfl, behind, close⟩
        have shorter := length_lt_of_tail close
        have small : ws.tail.length ≤ n := by
          rw [List.length_tail]
          omega
        rcases braced_stuck blocks small others with branch | ⟨body, yes, us, brace, branch, other⟩
        · rw [close] at read branch
          exact .after [.symbol .closeParen] read branch [.keyword .ifWord, .symbol .openParen] []
            (by decide) fun _ _ _ _ test yes => ⟨_, .cond test yes⟩
        · rw [close, List.tail_cons] at brace
          rw [close, brace] at read
          have le' : us.length ≤ body.length :=
            Step.length_le_of_done (x := blockStep body) branch
          rw [brace, List.length_cons] at shorter
          rcases alternative_stuck blocks (by omega) other with ⟨rest, otherwise, second⟩
          rcases block_sound (expression_sound _) (Nat.lt_succ_self _) branch with ⟨first, ends⟩
          have taken := derives_block first ends
          rw [otherwise] at taken
          -- The test is complete, and asks no more than to stand in front of its parenthesis.
          rcases read.run with ⟨run, rfl, complete⟩
          have whole : Stuck (.expr .atom) ((.keyword .ifWord :: .symbol .openParen ::
              (run ++ [.symbol .closeParen])) ++ .symbol .openBrace :: body) d := by
            refine .after [.keyword .elseWord] taken second _ [] (by decide)
              fun ts _ _ _ yes no => ?_
            have test := complete.moved (.symbol .closeParen :: ts) rfl
            exact ⟨_, by simpa using Derives.condElse test yes no⟩
          simpa using whole

theorem stuck_unary (op : UnaryOp) (h : Stuck (.expr .unary) ts d) :
    Stuck (.expr .unary) (.symbol op.symbol :: ts) d :=
  h.within [.symbol op.symbol] [] (by decide) fun _ _ _ derives => ⟨_, .unary derives⟩

theorem operand_stuck (expressions : ExpressionStuck n) (blocks : BlockStuck n)
    (short : ts.length ≤ n) (h : (operand ts).first? = some d) : Stuck (.expr .unary) ts d := by
  have atom {ts : List Token} (h : Stuck (.expr .atom) ts d) : Stuck (.expr .unary) ts d :=
    h.loosen (by decide)
  have refused {e : ParseError} {ts : List Token} (h : (.fail e ts : Reply Expr).first? = some d)
      (blames : Blames (e.locate ts) ts) : Blames d ts := by
    rw [Reply.first?_fail, Option.some.injEq] at h
    exact h ▸ blames
  have whole := h
  rw [operand_eq] at h
  split at h
  case h_1 => exact .here [] (.expr .unary) (refused h ⟨rfl, rfl⟩)
  case h_3 digits rest =>
    split at h
    · cases h
    · exact .here [] (.expr .unary) (refused h ⟨rfl, rfl⟩)
  case h_7 rest =>
    rw [Reply.first?_map] at h
    exact stuck_unary .not (expressions short (by decide) h)
  case h_8 rest =>
    rw [Reply.first?_map] at h
    exact stuck_unary .negate (expressions short (by decide) h)
  case h_9 rest =>
    have inside : Stuck (.expr .equality) rest d := by
      rcases Reply.first?_bind.1 h with inner | ⟨e, us, inner, missing⟩
      · exact expressions.loosest short inner
      · rw [Reply.first?_map] at missing
        exact .behind (expression_loosest inner).1 (next_stuck missing)
    exact atom (inside.within [.symbol .openParen] [.symbol .closeParen] (by decide)
      fun _ _ _ derives => ⟨_, .group derives⟩)
  case h_10 rest =>
    rw [Reply.first?_map] at h
    exact atom ((elements_stuck expressions short h).within [.symbol .openBracket]
      [.symbol .closeBracket] (by decide) fun _ _ _ derives => ⟨_, .array derives⟩)
  case h_11 rest =>
    rw [Reply.first?_map] at h
    exact atom ((pairs_stuck expressions short h).within [.symbol .openBrace]
      [.symbol .closeBrace] (by decide) fun _ _ _ derives => ⟨_, .hash derives⟩)
  case h_12 rest => exact atom (operand_fn_stuck blocks short whole)
  case h_13 rest => exact atom (operand_if_stuck expressions blocks short whole)
  case h_14 => exact .here [] (.expr .unary) (refused h ⟨rfl, rfl⟩)
  all_goals cases h

/-! ## Readers of statements -/

/-- A statement that is stuck in its expression goes on with what the expression lacks and a
semicolon. -/
theorem stuck_sentence (start : List Token) {form : Expr → Statement}
    (h : Stuck (.expr .equality) ts d)
    (rule : ∀ ts value rest, Derives (.expr .equality) ts value rest →
      Derives .sentence (start ++ ts) (form value) rest) : Stuck .statement (start ++ ts) d :=
  h.within start [.symbol .semicolon] (by decide)
    fun ts value rest derives => ⟨form value, .ended (rule ts value _ derives)⟩

theorem begun_bind (x : String) :
    Begun .statement [.keyword .letWord, .ident x, .symbol .assign] :=
  (Begun.expr .equality).within [.keyword .letWord, .ident x, .symbol .assign] [.symbol .semicolon]
    (by decide) fun _ _ _ derives => ⟨_, .ended (.bind derives)⟩

theorem statement_stuck (stuck : ExpressionStuck n) (short : ts.length < n)
    (h : (statement ts).first? = some d) : Stuck .statement ts d := by
  rw [statement_eq] at h
  split at h
  case h_1 rest =>
    rcases Reply.first?_bind.1 h with missing | ⟨x, us, named, others⟩
    · exact .here [.keyword .letWord] (.of_append (by decide) (begun_bind "x"))
        (nextName_stuck missing)
    · rcases nextName_eq_done_iff.1 named with ⟨rfl, following, name⟩
      rw [List.tail_cons] at name
      subst name
      rcases Reply.first?_bind.1 others with missing | ⟨_, vs, assign, behind⟩
      · exact .here [.keyword .letWord, .ident x] (.of_append (by decide) (begun_bind x))
          (next_stuck missing)
      · rcases next_eq_done_iff.1 assign with ⟨rfl, body, assign⟩
        rw [List.tail_cons] at assign
        subst assign
        rcases Reply.first?_bind.1 behind with inner | ⟨value, us, inner, complete⟩
        · simp only [List.length_cons] at short
          have value : Stuck (.expr .equality) body d := stuck.loosest (by omega) inner
          exact stuck_sentence [.keyword .letWord, .ident x, .symbol .assign] value
            fun _ _ _ derives => .bind derives
        · cases complete
  case h_2 rest =>
    rcases Reply.first?_bind.1 h with inner | ⟨value, us, inner, complete⟩
    · have value : Stuck (.expr .equality) rest d := stuck.loosest (Nat.lt_of_succ_lt short) inner
      exact stuck_sentence [.keyword .returnWord] value fun _ _ _ derives => .leave derives
    · cases complete
  case h_3 =>
    rcases Reply.first?_bind.1 h with inner | ⟨value, us, inner, complete⟩
    · exact stuck_sentence [] (stuck.loosest short inner) fun _ _ _ derives => .expr derives
    · cases complete

/-- Statements, one of which is stuck, whatever reads the ones behind it. -/
theorem statements_stuck (stuck : ExpressionStuck n) (short : ts.length < n)
    (h : (statement ts).first? = some d ∨
      ∃ s us, statement ts = .done s us ∧ Stuck .statements us.tail d) : Stuck .statements ts d := by
  rcases h with first | ⟨s, us, first, others⟩
  · exact (statement_stuck stuck short first).within [] [] (by decide)
      fun _ _ _ derives => ⟨_, .statements derives .noStatements⟩
  · have read := statement_sound (expression_sound _) (Nat.lt_succ_self _) first
    exact .after [] read others [] [] (by decide)
      fun _ _ _ _ first others => ⟨_, .statements first others⟩

/-- Behind a statement, or in the place of one, there is less to read. -/
theorem length_statement_lt {t : Token} {rest : List Token} {s : Statement}
    (h : statement (t :: rest) = .done s us) : us.tail.length < (t :: rest).length := by
  have le : us.length ≤ (t :: rest).length :=
    Step.length_le_of_done (x := statementStep (t :: rest)) h
  rw [List.length_tail, List.length_cons] at *
  omega

theorem block_stuck (stuck : ExpressionStuck n) : BlockStuck n := by
  intro ts d short h
  induction size : ts.length using Nat.strongRecOn generalizing ts with
  | ind m ih =>
    rw [block_eq] at h
    split at h
    · cases h
    · rename_i more
      rcases ts with _ | ⟨t, rest⟩
      · exact absurd (.inr rfl) more
      · refine statements_stuck stuck short ((Reply.first?_collect.1 h).imp_right ?_)
        rintro ⟨s, us, first, others⟩
        have shorter := length_statement_lt first
        exact ⟨s, us, first, ih us.tail.length (by omega) (by omega) others rfl⟩

/-! ## All readers -/

/-- The induction on the length. -/
theorem expression_stuck (n : Nat) : ExpressionStuck n := by
  induction n with
  | zero =>
    intro p ts d short
    exact absurd short (Nat.not_lt_zero _)
  | succ n ih =>
    intro p ts d short weak h
    have loose : p.level ≤ .unary := by
      revert weak
      cases p <;> decide
    rw [expression_eq] at h
    rcases Reply.first?_bind.1 h with first | ⟨left, vs, first, others⟩
    · exact (operand_stuck ih (block_stuck ih) (Nat.le_of_lt_succ short) first).loosen loose
    · have le : vs.length ≤ ts.length := Step.length_le_of_done (x := operandStep ts) first
      rcases operand_sound (expression_sound _) (block_sound (expression_sound _)) (Nat.le_refl _)
        first with ⟨l, tight, read, follows⟩
      exact continued_stuck ih (by omega) weak (Level.le_trans loose tight) read follows others

end Parse

/-- The first error of a program is the one of its first statement, or comes behind it. -/
theorem Draft.head?_errors_cons {t : Token} {rest : List Token} {d : Diagnostic} :
    (ofTokens (t :: rest)).errors.head? = some d ↔
      (Parse.statement (t :: rest)).first? = some d ∨
        ∃ s us, Parse.statement (t :: rest) = .done s us ∧
          (ofTokens us.tail).errors.head? = some d := by
  rw [ofTokens_cons, List.head?_append, ← Reply.first?]
  rcases Reply.done_or_first (Parse.statement (t :: rest)) with ⟨s, us, read⟩ | ⟨e, first⟩
  · rw [read, Reply.exists_eq_done_iff, Reply.first?_done]
    simp [Reply.done]
  · have incomplete (s : Statement) (us : List Token) : Parse.statement (t :: rest) ≠ .done s us := by
      intro read
      rw [read] at first
      cases first
    simp [first, incomplete]

/-- What is read of a text in front of its first error has begun a program. -/
theorem Draft.stuck {ts : List Token} {d : Diagnostic} (h : (ofTokens ts).errors.head? = some d) :
    Stuck .statements ts d := by
  induction size : ts.length using Nat.strongRecOn generalizing ts with
  | ind n ih =>
    cases ts with
    | nil => simp [ofTokens] at h
    | cons t rest =>
      refine Parse.statements_stuck (Parse.expression_stuck _) (Nat.lt_succ_self _)
        ((head?_errors_cons.1 h).imp_right ?_)
      rintro ⟨s, us, read, others⟩
      have shorter := Parse.length_statement_lt read
      exact ⟨s, us, read, ih us.tail.length (by omega) others rfl⟩

end Script
