import Script.Proofs.Grammar.First
import Script.Proofs.Grammar.Replies
import Script.Proofs.Grammar.Strength

/-!
# What derives is read

Every derivation is found by the readers. Which reply a phrase gets depends on the tokens behind it,
so `Reads` says for each sort of phrase what a reader answers and what it needs to see there: behind
an expression nothing that binds more strongly than its level allows, behind a condition no second
branch. For each rule of the grammar a lemma shows that `Reads` passes from the parts to the whole,
and the main theorem is an induction over the derivation.

An expression is read in a loop, and the derivation says only where the loop has come to when the
expression is complete. Whether it goes on from there depends on what follows.
-/

namespace Script

open Grammar

namespace Parse

variable {ts us rest : List Token}

/-! ## What is read -/

/-- Nothing that could belong to an expression comes first. -/
def Ends (ts : List Token) : Prop :=
  (headKind ts).continuation? = none ∧ headKind ts ≠ .keyword .elseWord

theorem ends_symbol {s : Symbol} (h : s.continuation? = none) : Ends (.symbol s :: rest) :=
  ⟨h, by simp [Token.kind]⟩

/-- What the readers answer to a phrase, in front of `rest`. -/
def Reads : (phrase : Phrase) → List Token → phrase.Tree → List Token → Prop
  | .expr l, ts, e, rest =>
    ∀ p : Precedence, p < .call → p.level ≤ l → (headKind rest).precedence ≤ l.strength →
      headKind rest ≠ .keyword .elseWord → ∃ us, us.tail = rest ∧ expression p ts = continued p e us
  | .elements, ts, es, rest =>
    ∀ close ∈ [Symbol.closeParen, .closeBracket], headKind rest = .symbol close →
      elements close ts = .done es rest
  | .moreElements, ts, es, rest =>
    ∀ us, us.tail = ts → Ends rest → headKind rest ≠ .symbol .comma →
      ∃ vs, vs.tail = rest ∧ moreElements us = .done es vs
  | .pairs, ts, ps, rest => headKind rest = .symbol .closeBrace → pairs ts = .done ps rest
  | .block, ts, body, rest =>
    ∃ us vs, ts = .symbol .openBrace :: us ∧ vs.tail = rest ∧ block us = .done body vs
  | .sentence, ts, s, rest =>
    Ends rest → ∃ us, us.tail = rest ∧ statement ts = .done s (skipSemicolon us)
  | .statement, ts, s, rest =>
    headKind rest ≠ .keyword .elseWord → ∃ us, us.tail = rest ∧ statement ts = .done s us
  | .statements, ts, ss, rest =>
    (headKind rest = .symbol .closeBrace ∨ rest = [] → block ts = .done ss rest) ∧
      (headKind rest ≠ .keyword .elseWord → Draft.ofTokens ts =
        ⟨ss ++ (Draft.ofTokens rest).statements, (Draft.ofTokens rest).errors⟩)

/-- An expression up to a token that cannot go on with it. -/
theorem reads_loosest {e : Expr} (h : Reads (.expr .equality) ts e rest) (ends : Ends rest) :
    ∃ us, us.tail = rest ∧ expression .lowest ts = .done e us := by
  rcases ends with ⟨stops, noElse⟩
  have follows : (headKind rest).precedence ≤ .lowest := TokenKind.precedence_le_lowest_iff.2 stops
  -- At the lowest strength the loop does not go on in front of such a token.
  rcases h .lowest (by decide) (Level.le_refl _) (Precedence.le_trans follows (by decide)) noElse with
    ⟨us, rfl, read⟩
  rw [continued_of_le follows] at read
  exact ⟨us, rfl, read⟩

/-! ## Operators -/

theorem reads_tighter {l : Level} {e : Expr} (h : Reads (.expr l.next) ts e rest) :
    Reads (.expr l) ts e rest := by
  intro p weak loose follows noElse
  have follows' := Precedence.le_trans follows (Level.strength_mono l.le_next)
  exact h p weak (Level.le_trans loose l.le_next) follows' noElse

/-- After an operand that is read as far as an opening token, one turn of the loop. -/
theorem reads_resumed {k : Continuation} {left : Expr}
    (first : Reads (.expr k.level) ts left (.symbol k.symbol :: us)) {p : Precedence}
    (weak : p < .call) (loose : p.level ≤ k.level) :
    expression p ts = (resumed k left us).bind (continued p) := by
  -- What the opening token starts binds as the level says, so the reading of `left` comes to it.
  have told : (TokenKind.symbol k.symbol).continuation? = some k :=
    TokenKind.continuation?_eq_some_iff.2 rfl
  have follows : (TokenKind.symbol k.symbol).precedence ≤ k.level.strength := by
    rw [TokenKind.precedence_of_some told]
    exact (Continuation.precedence_le_iff k k.level).2 (Level.le_refl _)
  rcases first p weak loose follows (by simp [Token.kind]) with ⟨vs, opens, read⟩
  rw [read]
  exact continued_of_lt opens ((Precedence.lt_iff_level_le weak k).2 loose)

theorem reads_binary {op : BinaryOp} {a b : Expr}
    (first : Reads (.expr (level op)) ts a (.symbol op.symbol :: us))
    (second : Reads (.expr (level op).next) us b rest) :
    Reads (.expr (level op)) ts (.binary op a b) rest := by
  intro p weak loose follows noElse
  have turn := reads_resumed (k := .operator op) first weak loose
  have loose' : op.precedence.level ≤ (level op).next := by
    rw [op.level_precedence]
    exact Level.le_refl _
  have follows' := Precedence.le_trans follows (Level.strength_mono (level op).le_next)
  -- The right operand stops where the whole expression does.
  rcases second op.precedence op.precedence_lt_call loose' follows' noElse with ⟨vs, rfl, read⟩
  rw [op.strength_level] at follows
  rw [continued_of_le follows] at read
  refine ⟨vs, rfl, ?_⟩
  rw [turn, resumed_eq]
  simp [read]

theorem reads_call {f : Expr} {args : List Expr}
    (callee : Reads (.expr .suffix) ts f (.symbol .openParen :: us))
    (given : Reads .elements us args (.symbol .closeParen :: rest)) :
    Reads (.expr .suffix) ts (.call f args) rest := by
  intro p weak loose _ _
  have turn := reads_resumed (k := .call) callee weak loose
  have read := given .closeParen (by simp) rfl
  refine ⟨.symbol .closeParen :: rest, rfl, ?_⟩
  rw [turn, resumed_eq]
  simp [read]

theorem reads_index {a i : Expr}
    (collection : Reads (.expr .suffix) ts a (.symbol .openBracket :: us))
    (position : Reads (.expr .equality) us i (.symbol .closeBracket :: rest)) :
    Reads (.expr .suffix) ts (.index a i) rest := by
  intro p weak loose _ _
  have turn := reads_resumed (k := .index) collection weak loose
  rcases reads_loosest position (ends_symbol rfl) with ⟨vs, close, read⟩
  refine ⟨.symbol .closeBracket :: rest, rfl, ?_⟩
  rw [turn, resumed_eq]
  simp [read, next_of_tail close]

/-- A prefix operator takes the operand that binds as strongly as itself. -/
theorem reads_unary {op : UnaryOp} {a : Expr} (h : Reads (.expr .unary) ts a rest) :
    Reads (.expr .unary) (.symbol op.symbol :: ts) (.unary op a) rest := by
  intro p _ _ follows noElse
  -- The operand is read at the strength `unary`, whatever strength `p` the whole is read at.
  rcases h .unary (by decide) (Level.le_refl _) follows noElse with ⟨us, rfl, read⟩
  have stops : (headKind us.tail).precedence ≤ .unary := follows
  rw [continued_of_le stops] at read
  refine ⟨us, rfl, ?_⟩
  cases op with
  | not =>
    rw [expression_eq, UnaryOp.symbol, operand_eq]
    simp [read]
  | negate =>
    rw [expression_eq, UnaryOp.symbol, operand_eq]
    simp [read]

/-! ## Atoms -/

theorem reads_atom {e : Expr} (h : headKind rest ≠ .keyword .elseWord →
    ∃ us, us.tail = rest ∧ operand ts = .done e us) : Reads (.expr .atom) ts e rest := by
  intro p _ _ _ noElse
  rcases h noElse with ⟨us, rfl, read⟩
  refine ⟨us, rfl, ?_⟩
  rw [expression_eq, read, Reply.done_bind]

theorem reads_int {digits : String} {n : Int64} (value : n.toInt = Decimal.toNat digits.toList) :
    Reads (.expr .atom) (.int digits :: rest) (.int n) rest := by
  refine reads_atom fun _ => ⟨.int digits :: rest, rfl, ?_⟩
  have denoted := Integer.ofLiteral?_eq_some_iff.2 value
  rw [operand_eq]
  simp only [denoted]

theorem reads_group {e : Expr} (h : Reads (.expr .equality) ts e (.symbol .closeParen :: rest)) :
    Reads (.expr .atom) (.symbol .openParen :: ts) e rest := by
  refine reads_atom fun _ => ?_
  rcases reads_loosest h (ends_symbol rfl) with ⟨us, close, read⟩
  refine ⟨.symbol .closeParen :: rest, rfl, ?_⟩
  rw [operand_eq]
  simp [read, next_of_tail close]

theorem reads_condHead {test : Expr} {yes : Block}
    (tested : Reads (.expr .equality) ts test (.symbol .closeParen :: us))
    (branch : Reads .block us yes rest) :
    ∃ vs, vs.tail = rest ∧
      operand (.keyword .ifWord :: .symbol .openParen :: ts) = alternative test yes vs := by
  rcases reads_loosest tested (ends_symbol rfl) with ⟨ws, close, read⟩
  rcases branch with ⟨inside, vs, rfl, follows, read'⟩
  refine ⟨vs, follows, ?_⟩
  have opened : next (.symbol .openParen) (.keyword .ifWord :: .symbol .openParen :: ts) =
      .done () (.symbol .openParen :: ts) := next_of_tail rfl
  have brace : next (.symbol .openBrace) (.symbol .closeParen :: .symbol .openBrace :: inside) =
      .done () (.symbol .openBrace :: inside) := next_of_tail rfl
  rw [operand_eq]
  simp [opened, read, next_of_tail close, brace, read']

theorem reads_cond {test : Expr} {yes : Block}
    (tested : Reads (.expr .equality) ts test (.symbol .closeParen :: us))
    (branch : Reads .block us yes rest) :
    Reads (.expr .atom) (.keyword .ifWord :: .symbol .openParen :: ts) (.cond test yes none)
      rest := by
  refine reads_atom fun noElse => ?_
  rcases reads_condHead tested branch with ⟨vs, rfl, read⟩
  refine ⟨vs, rfl, ?_⟩
  rw [read, alternative_eq, if_neg noElse]

theorem reads_condElse {test : Expr} {yes no : Block} {vs : List Token}
    (tested : Reads (.expr .equality) ts test (.symbol .closeParen :: us))
    (branch : Reads .block us yes (.keyword .elseWord :: vs)) (other : Reads .block vs no rest) :
    Reads (.expr .atom) (.keyword .ifWord :: .symbol .openParen :: ts) (.cond test yes (some no))
      rest := by
  refine reads_atom fun _ => ?_
  rcases reads_condHead tested branch with ⟨ws, following, read⟩
  rcases other with ⟨inside, xs, rfl, rfl, read'⟩
  have brace : next (.symbol .openBrace) (.keyword .elseWord :: .symbol .openBrace :: inside) =
      .done () (.symbol .openBrace :: inside) := next_of_tail rfl
  refine ⟨xs, rfl, ?_⟩
  rw [read, alternative_eq, following]
  simp [Token.kind, brace, read']

theorem moreParams_of_tokens {xs : List String}
    (h : ts.tail = xs.flatMap (fun x => [.symbol .comma, .ident x]) ++ .symbol .closeParen :: rest) :
    ∃ us, us.tail = .symbol .closeParen :: rest ∧ moreParams ts = .done xs us := by
  induction xs generalizing ts with
  | nil =>
    refine ⟨ts, h, ?_⟩
    rw [moreParams_eq, h]
    simp [Token.kind]
  | cons x xs ih =>
    simp only [List.flatMap_cons, List.cons_append, List.nil_append] at h
    have more : (Token.ident x :: (xs.flatMap (fun x => [.symbol .comma, .ident x]) ++
        .symbol .closeParen :: rest)).tail = _ := rfl
    rcases ih more with ⟨us, close, read⟩
    refine ⟨us, close, ?_⟩
    rw [moreParams_eq, h]
    simp [Token.kind, nextName_ident, read]

theorem params_of_tokens {xs : List String}
    (h : ts.tail = paramTokens xs ++ .symbol .closeParen :: rest) :
    params ts = .done xs (.symbol .closeParen :: rest) := by
  cases xs with
  | nil =>
    rw [params_eq, h]
    simp [paramTokens, Token.kind]
  | cons x xs =>
    rw [paramTokens, List.cons_append] at h
    have more : ts.tail.tail =
        xs.flatMap (fun x => [.symbol .comma, .ident x]) ++ .symbol .closeParen :: rest := by
      rw [h]
      rfl
    rcases moreParams_of_tokens more with ⟨us, close, read⟩
    have named : nextName ts = .done x ts.tail := nextName_eq_done_iff.2 ⟨rfl, _, h⟩
    rw [params_eq, if_neg (by simp [h, Token.kind]), named]
    simp [read, next_of_tail close]

theorem reads_fn {params : List String} {body : Block} (h : Reads .block ts body rest) :
    Reads (.expr .atom)
      (.keyword .fnWord :: .symbol .openParen :: (paramTokens params ++ .symbol .closeParen :: ts))
      (.fn params body) rest := by
  refine reads_atom fun _ => ?_
  rcases h with ⟨inside, vs, rfl, rfl, read⟩
  -- The parameters stay folded, so that only `listed` says how they are read.
  generalize names : paramTokens params ++ .symbol .closeParen :: .symbol .openBrace :: inside = us
  have opened : next (.symbol .openParen) (.keyword .fnWord :: .symbol .openParen :: us) =
      .done () (.symbol .openParen :: us) := next_of_tail rfl
  have listed : Parse.params (.symbol .openParen :: us) =
      .done params (.symbol .closeParen :: .symbol .openBrace :: inside) :=
    params_of_tokens names.symm
  have brace : next (.symbol .openBrace) (.symbol .closeParen :: .symbol .openBrace :: inside) =
      .done () (.symbol .openBrace :: inside) := next_of_tail rfl
  refine ⟨vs, rfl, ?_⟩
  rw [operand_eq]
  simp [opened, listed, brace, read]

theorem reads_array {es : List Expr} (h : Reads .elements ts es (.symbol .closeBracket :: rest)) :
    Reads (.expr .atom) (.symbol .openBracket :: ts) (.array es) rest := by
  refine reads_atom fun _ => ⟨.symbol .closeBracket :: rest, rfl, ?_⟩
  have read := h .closeBracket (by simp) rfl
  rw [operand_eq]
  simp [read]

theorem reads_hash {ps : List (Expr × Expr)}
    (h : Reads .pairs ts ps (.symbol .closeBrace :: rest)) :
    Reads (.expr .atom) (.symbol .openBrace :: ts) (.hash ps) rest := by
  refine reads_atom fun _ => ⟨.symbol .closeBrace :: rest, rfl, ?_⟩
  have read := h rfl
  rw [operand_eq]
  simp [read]

/-! ## Lists -/

theorem ends_of_closes {close : Symbol} (closing : close ∈ [Symbol.closeParen, .closeBracket])
    (h : headKind rest = .symbol close) : Ends rest ∧ headKind rest ≠ .symbol .comma := by
  rcases headKind_eq_symbol_iff.1 h with ⟨following, rfl⟩
  simp only [List.mem_cons, List.not_mem_nil, or_false] at closing
  rcases closing with rfl | rfl <;> exact ⟨ends_symbol rfl, by simp [Token.kind]⟩

/-- Elements end where an expression ends: at a comma, or at what stands behind them all. -/
theorem ends_of_starts (h : Starts .moreElements ts rest) (ends : Ends rest) : Ends ts := by
  rcases h with rfl | comma
  · exact ends
  · rcases headKind_eq_symbol_iff.1 comma with ⟨following, rfl⟩
    exact ends_symbol rfl

theorem reads_more {e : Expr} {es : List Expr} (first : Reads (.expr .equality) ts e us)
    (starts : Starts .moreElements us rest) (others : Reads .moreElements us es rest) :
    Reads .moreElements (.symbol .comma :: ts) (e :: es) rest := by
  intro vs comma ends noComma
  rcases reads_loosest first (ends_of_starts starts ends) with ⟨ws, rfl, read⟩
  rcases others ws rfl ends noComma with ⟨xs, rfl, read'⟩
  refine ⟨xs, rfl, ?_⟩
  rw [moreElements_eq, comma]
  simp [Token.kind, read, read']

theorem reads_noMore : Reads .moreElements ts [] ts := by
  intro us follows _ noComma
  refine ⟨us, follows, ?_⟩
  rw [moreElements_eq, follows, if_neg noComma]

theorem reads_noElements : Reads .elements ts [] ts := by
  intro close _ closed
  rw [elements_eq, if_pos closed]

theorem reads_elements {e : Expr} {es : List Expr} (opens : (headKind ts).startsExpr)
    (first : Reads (.expr .equality) ts e us) (starts : Starts .moreElements us rest)
    (others : Reads .moreElements us es rest) : Reads .elements ts (e :: es) rest := by
  intro close closing closed
  -- The list ends at its bracket, and each of its elements there or at a comma.
  rcases ends_of_closes closing closed with ⟨ends, noComma⟩
  rcases reads_loosest first (ends_of_starts starts ends) with ⟨vs, rfl, read⟩
  rcases others vs rfl ends noComma with ⟨ws, rfl, read'⟩
  rcases headKind_eq_symbol_iff.1 closed with ⟨following, there⟩
  -- No expression starts with the bracket, so the list is not taken for an empty one.
  have closing' := List.mem_append_left [Symbol.closeBrace] closing
  have more : headKind ts ≠ .symbol close :=
    ne_symbol_of_startsStatement (startsStatement_of_startsExpr opens) closing'
  rw [elements_eq, if_neg more]
  simp [read, read', next_of_tail there, there]

theorem reads_noPairs : Reads .pairs ts [] ts := by
  intro closed
  rw [pairs_eq, if_pos closed]

/-- The first pair, up to its value. -/
theorem reads_pairHead {key : Expr} (opens : (headKind ts).startsExpr)
    (first : Reads (.expr .equality) ts key (.symbol .colon :: us)) :
    pairs ts = (expression .lowest us).bind fun value ws =>
      if headKind ws.tail = .symbol .closeBrace then .done [(key, value)] ws.tail
      else (next (.symbol .comma) ws).bind fun _ xs =>
        (pairs xs.tail).map ((key, value) :: ·) := by
  have more : headKind ts ≠ .symbol .closeBrace :=
    ne_symbol_of_startsStatement (startsStatement_of_startsExpr opens) (by simp)
  rcases reads_loosest first (ends_symbol rfl) with ⟨vs, colon, read⟩
  rw [pairs_eq, if_neg more]
  simp [read, next_of_tail colon]

theorem reads_lastPair {key value : Expr} (opens : (headKind ts).startsExpr)
    (first : Reads (.expr .equality) ts key (.symbol .colon :: us))
    (second : Reads (.expr .equality) us value rest) : Reads .pairs ts [(key, value)] rest := by
  intro closed
  rcases headKind_eq_symbol_iff.1 closed with ⟨following, rfl⟩
  rcases reads_loosest second (ends_symbol rfl) with ⟨vs, close, read⟩
  rw [reads_pairHead opens first, read, Reply.done_bind, close, if_pos closed]

theorem reads_pairs {key value : Expr} {ps : List (Expr × Expr)} {vs : List Token}
    (opens : (headKind ts).startsExpr)
    (first : Reads (.expr .equality) ts key (.symbol .colon :: us))
    (second : Reads (.expr .equality) us value (.symbol .comma :: vs))
    (others : Reads .pairs vs ps rest) : Reads .pairs ts ((key, value) :: ps) rest := by
  intro closed
  rcases reads_loosest second (ends_symbol rfl) with ⟨ws, comma, read⟩
  have read' := others closed
  rw [reads_pairHead opens first, read, Reply.done_bind, comma, if_neg (by simp [Token.kind])]
  simp [next_of_tail comma, read']

/-! ## Statements -/

theorem skipSemicolon_of_ne (h : headKind ts.tail ≠ .symbol .semicolon) : skipSemicolon ts = ts :=
  if_neg h

theorem skipSemicolon_of_eq (h : headKind ts.tail = .symbol .semicolon) :
    skipSemicolon ts = ts.tail :=
  if_pos h

theorem reads_bind {x : String} {value : Expr} (h : Reads (.expr .equality) ts value rest) :
    Reads .sentence (.keyword .letWord :: .ident x :: .symbol .assign :: ts) (.bind x value)
      rest := by
  intro ends
  rcases reads_loosest h ends with ⟨us, rfl, read⟩
  have assign : next (.symbol .assign) (.ident x :: .symbol .assign :: ts) =
      .done () (.symbol .assign :: ts) := next_of_tail rfl
  refine ⟨us, rfl, ?_⟩
  rw [statement_eq]
  simp [nextName_ident, assign, read]

theorem reads_leave {value : Expr} (h : Reads (.expr .equality) ts value rest) :
    Reads .sentence (.keyword .returnWord :: ts) (.leave value) rest := by
  intro ends
  rcases reads_loosest h ends with ⟨us, rfl, read⟩
  refine ⟨us, rfl, ?_⟩
  rw [statement_eq]
  simp [read]

theorem reads_expr {value : Expr} (opens : (headKind ts).startsExpr)
    (h : Reads (.expr .equality) ts value rest) : Reads .sentence ts (.expr value) rest := by
  intro ends
  rcases reads_loosest h ends with ⟨us, rfl, read⟩
  refine ⟨us, rfl, ?_⟩
  rw [statement_eq]
  split
  · cases opens
  · cases opens
  · simp [read]

theorem reads_ended {s : Statement} (h : Reads .sentence ts s (.symbol .semicolon :: rest)) :
    Reads .statement ts s rest := by
  intro _
  rcases h (ends_symbol rfl) with ⟨us, semicolon, read⟩
  refine ⟨.symbol .semicolon :: rest, rfl, ?_⟩
  rw [read, skipSemicolon_of_eq (by rw [semicolon]; rfl), semicolon]

theorem reads_bare {s : Statement} (h : Reads .sentence ts s rest)
    (follows : ∀ symbol ∈ goesOn, headKind rest ≠ .symbol symbol) : Reads .statement ts s rest := by
  intro noElse
  -- What follows neither goes on with the sentence nor ends it.
  rcases TokenKind.ne_goesOn_iff.1 follows with ⟨stops, noSemicolon⟩
  rcases h ⟨stops, noElse⟩ with ⟨us, rfl, read⟩
  refine ⟨us, rfl, ?_⟩
  rw [read, skipSemicolon_of_ne noSemicolon]

theorem reads_noStatements : Reads .statements ts [] ts := by
  refine ⟨?_, fun _ => rfl⟩
  intro ends
  -- A block stops at its brace and at the end of the input, a program only there.
  have closed : headKind ts = .symbol .closeBrace ∨ headKind ts = .eof :=
    ends.imp_right headKind_eq_eof_iff.2
  rw [block_eq, if_pos closed]

theorem reads_statements {s : Statement} {ss : List Statement}
    (opens : (headKind ts).startsStatement) (first : Reads .statement ts s us)
    (starts : Starts .statements us rest) (others : Reads .statements us ss rest) :
    Reads .statements ts (s :: ss) rest := by
  -- A statement cannot stand in front of a second branch, so it does not matter what follows.
  have found (noElse : headKind rest ≠ .keyword .elseWord) :
      ∃ vs, vs.tail = us ∧ statement ts = .done s vs := by
    refine first ?_
    rcases starts with rfl | more
    · exact noElse
    · exact ne_else_of_startsStatement more
  constructor
  · intro ends
    have noElse : headKind rest ≠ .keyword .elseWord := by
      rcases ends with closed | rfl
      · simp [closed]
      · simp
    -- A statement starts here, so the block is not over.
    have more : ¬ (headKind ts = .symbol .closeBrace ∨ headKind ts = .eof) := by
      intro ended
      rcases ended with closed | atEnd
      · exact ne_symbol_of_startsStatement opens (by simp) closed
      · exact ne_eof_of_startsStatement opens atEnd
    rcases found noElse with ⟨vs, rfl, read⟩
    rw [block_eq, if_neg more]
    exact Reply.collect_eq_done_iff.2 ⟨s, vs, ss, read, others.1 ends, rfl⟩
  · intro noElse
    rcases found noElse with ⟨vs, rfl, read⟩
    cases ts with
    | nil => cases opens
    | cons t following =>
      rw [Draft.ofTokens, read]
      simp [Reply.done, Reply.built, Reply.errors, others.2 noElse]

theorem reads_block {body : Block} (h : Reads .statements ts body (.symbol .closeBrace :: rest)) :
    Reads .block (.symbol .openBrace :: ts) body rest :=
  ⟨ts, .symbol .closeBrace :: rest, rfl, rfl, h.1 (.inl rfl)⟩

theorem reads_openBlock {body : Block} (h : Reads .statements ts body []) :
    Reads .block (.symbol .openBrace :: ts) body [] :=
  ⟨ts, [], rfl, rfl, h.1 (.inr rfl)⟩

/-! ## All phrases -/

theorem reads_of_derives {phrase : Phrase} {ts rest : List Token} {tree : phrase.Tree}
    (h : Derives phrase ts tree rest) : Reads phrase ts tree rest := by
  induction h with
  | tighter _ ih => exact reads_tighter ih
  | binary _ _ first second => exact reads_binary first second
  | unary _ ih => exact reads_unary ih
  | call _ _ callee given => exact reads_call callee given
  | index _ _ collection position => exact reads_index collection position
  | name => exact reads_atom fun _ => ⟨_ :: _, rfl, by rw [operand_eq]⟩
  | int value =>
    exact reads_int value
  | str => exact reads_atom fun _ => ⟨_ :: _, rfl, by rw [operand_eq]⟩
  | true => exact reads_atom fun _ => ⟨_ :: _, rfl, by rw [operand_eq]⟩
  | false => exact reads_atom fun _ => ⟨_ :: _, rfl, by rw [operand_eq]⟩
  | group _ ih => exact reads_group ih
  | cond _ _ tested branch => exact reads_cond tested branch
  | condElse _ _ _ tested branch other => exact reads_condElse tested branch other
  | fn _ ih => exact reads_fn ih
  | array _ ih => exact reads_array ih
  | hash _ ih => exact reads_hash ih
  | noElements => exact reads_noElements
  | elements e es first others => exact reads_elements e.starts first es.starts others
  | noMore => exact reads_noMore
  | more _ es first others => exact reads_more first es.starts others
  | noPairs => exact reads_noPairs
  | lastPair key _ first second => exact reads_lastPair key.starts first second
  | pairs key _ _ first second others => exact reads_pairs key.starts first second others
  | block _ ih => exact reads_block ih
  | openBlock _ ih => exact reads_openBlock ih
  | bind _ ih => exact reads_bind ih
  | leave _ ih => exact reads_leave ih
  | expr e ih => exact reads_expr e.starts ih
  | ended _ ih => exact reads_ended ih
  | bare _ follows ih => exact reads_bare ih follows
  | noStatements => exact reads_noStatements
  | statements s ss first others => exact reads_statements s.starts first ss.starts others

end Parse
end Script
