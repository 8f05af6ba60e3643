import Script.Program.Parse

/-!
# What each reader reads

One equation for every reader, over replies alone: the bounds that make the definitions end are gone.
Nothing else about the readers has to be unfolded.
-/

namespace Script
namespace Parse

/-! ## Single tokens -/

theorem next_eq (kind : TokenKind) (ts : List Token) :
    next kind ts =
      if headKind ts.tail = kind then .done () ts.tail
      else .fail (.unexpected kind (headKind ts.tail)) ts := by
  unfold next expect
  split <;> rfl

theorem nextName_ident (t : Token) (x : String) (rest : List Token) :
    nextName (t :: .ident x :: rest) = .done x (.ident x :: rest) := rfl

theorem nextName_of_ne {ts : List Token} (h : headKind ts.tail ≠ .ident) :
    nextName ts = .fail (.unexpected .ident (headKind ts.tail)) ts := by
  unfold nextName expectName
  split
  · rename_i hs
    rw [hs] at h
    simp [Token.kind] at h
  · rfl

/-! ## Parameters -/

theorem moreParams_eq (ts : List Token) :
    moreParams ts =
      if headKind ts.tail = .symbol .comma then
        (nextName ts.tail).bind fun x us => (moreParams us).map (x :: ·)
      else .done [] ts := by
  unfold moreParams
  rw [moreParamsStep.eq_def]
  match ts with
  | [] => rfl
  | [_] => rfl
  | _ :: u :: rest =>
    by_cases comma : u.kind = .symbol .comma
    · simp only [comma, List.tail_cons, headKind_cons, if_true, Step.reply_within]
      exact Step.reply_bind fun _ _ _ => rfl
    · simp [comma]

theorem params_eq (ts : List Token) :
    params ts =
      if headKind ts.tail = .symbol .closeParen then .done [] ts.tail
      else
        (nextName ts).bind fun x us =>
          (moreParams us).bind fun xs vs =>
            (next (.symbol .closeParen) vs).map fun _ => x :: xs := by
  unfold params paramsStep
  split
  · rfl
  · exact Step.reply_bind fun _ _ _ => Step.reply_bind fun _ _ _ => rfl

/-! ## Expressions -/

theorem expression_eq (p : Precedence) (ts : List Token) :
    expression p ts = (operand ts).bind (continued p) := by
  unfold expression
  rw [expressionStep]
  exact Step.reply_bind fun _ _ _ => rfl

/-- An operand is told by its first token. -/
theorem operand_eq (ts : List Token) :
    operand ts =
      match ts with
      | [] => .fail (.noOperand .eof) []
      | .ident x :: rest => .done (.name x) (.ident x :: rest)
      | .int digits :: rest =>
        match Integer.ofLiteral? digits.toList with
        | some n => .done (.int n) (.int digits :: rest)
        | none => .fail (.outOfRange digits) (.int digits :: rest)
      | .str text :: rest => .done (.str text) (.str text :: rest)
      | .keyword .trueWord :: rest => .done (.bool true) (.keyword .trueWord :: rest)
      | .keyword .falseWord :: rest => .done (.bool false) (.keyword .falseWord :: rest)
      | .symbol .bang :: rest => (expression .unary rest).map (.unary .not)
      | .symbol .minus :: rest => (expression .unary rest).map (.unary .negate)
      | .symbol .openParen :: rest =>
        (expression .lowest rest).bind fun e us =>
          (next (.symbol .closeParen) us).map fun _ => e
      | .symbol .openBracket :: rest => (elements .closeBracket rest).map .array
      | .symbol .openBrace :: rest => (pairs rest).map .hash
      | .keyword .fnWord :: rest =>
        (next (.symbol .openParen) (.keyword .fnWord :: rest)).bind fun _ us =>
          (params us).bind fun xs vs =>
            (next (.symbol .openBrace) vs).bind fun _ ws => (block ws.tail).map (.fn xs)
      | .keyword .ifWord :: rest =>
        (next (.symbol .openParen) (.keyword .ifWord :: rest)).bind fun _ us =>
          (expression .lowest us.tail).bind fun test vs =>
            (next (.symbol .closeParen) vs).bind fun _ ws =>
              (next (.symbol .openBrace) ws).bind fun _ xs =>
                (block xs.tail).bind (alternative test)
      | t :: rest => .fail (.noOperand t.kind) (t :: rest) := by
  unfold operand
  rw [operandStep.eq_def]
  cases ts with
  | nil => rfl
  | cons t rest =>
    cases t with
    | int digits =>
      dsimp only
      generalize Integer.ofLiteral? digits.toList = n
      cases n <;> rfl
    | symbol s =>
      cases s with
      | openParen =>
        dsimp only
        rw [Step.reply_within]
        exact Step.reply_bind fun _ _ _ => rfl
      | _ => rfl
    | keyword k =>
      cases k with
      | fnWord =>
        exact Step.reply_bind fun _ _ _ => Step.reply_bind fun _ _ _ =>
          Step.reply_bind fun _ _ _ => rfl
      | ifWord =>
        refine Step.reply_bind fun _ _ _ => ?_
        rw [Step.reply_within]
        refine Step.reply_bind fun _ _ _ => Step.reply_bind fun _ _ _ =>
          Step.reply_bind fun _ _ _ => ?_
        rw [Step.reply_within]
        exact Step.reply_bind fun _ _ _ => rfl
      | _ => rfl
    | _ => rfl

theorem alternative_eq (test : Expr) (yes : Block) (ts : List Token) :
    alternative test yes ts =
      if headKind ts.tail = .keyword .elseWord then
        (next (.symbol .openBrace) ts.tail).bind fun _ us =>
          (block us.tail).map fun no => .cond test yes (some no)
      else .done (.cond test yes none) ts := by
  unfold alternative
  rw [alternativeStep.eq_def]
  match ts with
  | [] => rfl
  | [_] => rfl
  | _ :: u :: rest =>
    by_cases other : u.kind = .keyword .elseWord
    · simp only [other, List.tail_cons, headKind_cons, if_true, Step.reply_within]
      exact Step.reply_bind fun _ _ _ => rfl
    · simp [other]

theorem continued_eq (p : Precedence) (left : Expr) (ts : List Token) :
    continued p left ts =
      match (headKind ts.tail).continuation? with
      | some k =>
        if p < k.precedence then (resumed k left ts.tail.tail).bind (continued p) else .done left ts
      | none => .done left ts := by
  unfold continued
  rw [continuedStep.eq_def]
  match ts with
  | [] => rfl
  | [_] => rfl
  | _ :: u :: rest =>
    simp only [List.tail_cons, headKind_cons]
    cases u.kind.continuation? with
    | none => rfl
    | some k =>
      by_cases stronger : p < k.precedence
      · simp only [stronger, if_true, Step.reply_within]
        exact Step.reply_bind fun _ _ _ => rfl
      · simp [stronger]

theorem resumed_eq (k : Continuation) (left : Expr) (ts : List Token) :
    resumed k left ts =
      match k with
      | .operator op => (expression op.precedence ts).map (.binary op left)
      | .call => (elements .closeParen ts).map (.call left)
      | .index =>
        (expression .lowest ts).bind fun i us =>
          (next (.symbol .closeBracket) us).map fun _ => .index left i := by
  unfold resumed
  rw [resumedStep.eq_def]
  cases k with
  | operator op => rfl
  | call => rfl
  | index => exact Step.reply_bind fun _ _ _ => rfl

theorem elements_eq (close : Symbol) (ts : List Token) :
    elements close ts =
      if headKind ts = .symbol close then .done [] ts
      else
        (expression .lowest ts).bind fun e us =>
          (moreElements us).bind fun es vs =>
            (next (.symbol close) vs).map fun _ => e :: es := by
  unfold elements
  rw [elementsStep]
  split
  · rfl
  · exact Step.reply_bind fun _ _ _ => Step.reply_bind fun _ _ _ => rfl

theorem moreElements_eq (ts : List Token) :
    moreElements ts =
      if headKind ts.tail = .symbol .comma then
        (expression .lowest ts.tail.tail).bind fun e us => (moreElements us).map (e :: ·)
      else .done [] ts := by
  unfold moreElements
  rw [moreElementsStep.eq_def]
  match ts with
  | [] => rfl
  | [_] => rfl
  | _ :: u :: rest =>
    by_cases comma : u.kind = .symbol .comma
    · simp only [comma, List.tail_cons, headKind_cons, if_true, Step.reply_within]
      exact Step.reply_bind fun _ _ _ => rfl
    · simp [comma]

theorem expression_nil (p : Precedence) : expression p [] = .fail (.noOperand .eof) [] := by
  rw [expression_eq, operand_eq, Reply.fail_bind]

theorem pairs_eq (ts : List Token) :
    pairs ts =
      if headKind ts = .symbol .closeBrace then .done [] ts
      else
        (expression .lowest ts).bind fun key us =>
          (next (.symbol .colon) us).bind fun _ vs =>
            (expression .lowest vs.tail).bind fun value ws =>
              if headKind ws.tail = .symbol .closeBrace then .done [(key, value)] ws.tail
              else
                (next (.symbol .comma) ws).bind fun _ xs =>
                  (pairs xs.tail).map ((key, value) :: ·) := by
  unfold pairs
  rw [pairsStep.eq_def]
  match ts with
  | [] => simp [expression_nil]
  | t :: rest =>
    by_cases close : t.kind = .symbol .closeBrace
    · simp [close]
    · simp only [close, headKind_cons, if_false]
      refine Step.reply_bind fun _ _ _ => Step.reply_bind fun _ _ _ => ?_
      rw [Step.reply_within]
      refine Step.reply_bind fun _ ws _ => ?_
      by_cases last : headKind ws.tail = .symbol .closeBrace
      · simp [last]
      · simp only [last, if_false]
        exact Step.reply_bind fun _ _ _ => rfl

/-! ## Statements -/

theorem block_eq (ts : List Token) :
    block ts =
      if headKind ts = .symbol .closeBrace ∨ headKind ts = .eof then .done [] ts
      else (statement ts).collect block := by
  unfold block
  rw [blockStep.eq_def]
  match ts with
  | [] => simp
  | t :: rest =>
    by_cases close : t.kind = .symbol .closeBrace
    · simp [close]
    · simp only [close, headKind_cons, t.kind_ne_eof, or_false, if_false]
      exact Step.reply_collect fun _ _ => rfl

/-- A statement is told by its first token. -/
theorem statement_eq (ts : List Token) :
    statement ts =
      match ts with
      | .keyword .letWord :: rest =>
        (nextName (.keyword .letWord :: rest)).bind fun x us =>
          (next (.symbol .assign) us).bind fun _ vs =>
            (expression .lowest vs.tail).bind fun value ws =>
              .done (.bind x value) (skipSemicolon ws)
      | .keyword .returnWord :: rest =>
        (expression .lowest rest).bind fun value us => .done (.leave value) (skipSemicolon us)
      | ts => (expression .lowest ts).bind fun value us => .done (.expr value) (skipSemicolon us)
    := by
  unfold statement
  rw [statementStep.eq_def]
  match ts with
  | .keyword .letWord :: rest =>
    refine Step.reply_bind fun _ _ _ => Step.reply_bind fun _ _ _ => ?_
    rw [Step.reply_within]
    exact Step.reply_bind fun _ _ _ => rfl
  | .keyword .returnWord :: rest =>
    dsimp only
    rw [Step.reply_within]
    exact Step.reply_bind fun _ _ _ => rfl
  | [] | .illegal _ :: _ | .ident _ :: _ | .int _ :: _ | .str _ :: _ | .symbol _ :: _
  | .keyword .fnWord :: _ | .keyword .trueWord :: _ | .keyword .falseWord :: _
  | .keyword .ifWord :: _ | .keyword .elseWord :: _ =>
    exact Step.reply_bind fun _ _ _ => rfl

end Parse
end Script
