import Script.Proofs.Grammar.Sound

/-!
# How many errors there can be

Reading a statement begins at a token and may begin others in the blocks of the statement, each at a
token of its own further on. Each of them is built or gives an error, so there are no more statements
and errors than tokens, however deep the errors are.

A reply pays for what it has recorded with the tokens it has left behind: `r.Pays m l`. There is one
lemma for each reader, with expressions taken for granted below some length, and one induction on the
length.
-/

namespace Script

variable {α β : Type}

/-! ## Replies -/

/-- What is recorded, and the tokens behind the cursor, are no more than `m`; the cursor is no longer
than `l`. -/
structure Reply.Pays (m l : Nat) (r : Reply α) : Prop where
  tokens : r.recorded.length + r.cursor.tail.length ≤ m
  cursor : r.cursor.length ≤ l

namespace Reply.Pays

variable {m l : Nat} {r : Reply α} {us : List Token}

theorem done {a : α} (rest : us.tail.length ≤ m) (le : us.length ≤ l) :
    (Reply.done a us).Pays m l where
  tokens := Nat.le_trans (Nat.le_of_eq (Nat.zero_add _)) rest
  cursor := le

theorem fail {e : ParseError} (rest : us.tail.length ≤ m) (le : us.length ≤ l) :
    (Reply.fail e us : Reply α).Pays m l where
  tokens := Nat.le_trans (Nat.le_of_eq (Nat.zero_add _)) rest
  cursor := le

theorem mono {m' l' : Nat} (h : r.Pays m l) (tokens : m ≤ m') (cursor : l ≤ l') : r.Pays m' l' where
  tokens := Nat.le_trans h.tokens tokens
  cursor := Nat.le_trans h.cursor cursor

/-- Behind the cursor there are at most as many tokens as were behind an earlier one. -/
theorem behind (h : r.Pays us.tail.length us.tail.length) : r.Pays us.tail.length us.length :=
  h.mono (Nat.le_refl _) (List.tail_sublist us).length_le

/-- What goes on pays with the tokens that are left. -/
theorem bind {f : α → List Token → Reply β} (h : r.Pays m l)
    (others : ∀ a us, us.length ≤ l → (f a us).Pays us.tail.length us.length) :
    (r.bind f).Pays m l := by
  rcases r with ⟨e | a, recorded, cursor⟩
  · exact ⟨h.tokens, h.cursor⟩
  · have next := others a cursor h.cursor
    have paid := h.tokens
    have paid' := next.tokens
    refine ⟨?_, Nat.le_trans next.cursor h.cursor⟩
    simp only [Reply.bind, List.length_append] at *
    omega

theorem map {g : α → β} (h : r.Pays m l) : (r.map g).Pays m l :=
  ⟨h.tokens, h.cursor⟩

/-- All errors of a reply are at most one more than those that are recorded. -/
theorem length_errors_le (r : Reply α) : r.errors.length ≤ r.recorded.length + 1 := by
  rcases r with ⟨_ | a, recorded, cursor⟩
  · simp [errors]
  · simp [errors]

/-- An item that does not fit costs one more token, the one it begins at. -/
theorem collect {f : List Token → Reply (List α)} (h : r.Pays m l)
    (others : ∀ us : List Token, us.length ≤ l → (f us.tail).Pays us.tail.length us.tail.length) :
    (r.collect f).Pays (m + 1) l := by
  have next := others r.cursor h.cursor
  have one := length_errors_le r
  have paid := h.tokens
  have paid' := next.tokens
  constructor
  · simp only [Reply.collect, List.length_append]
    omega
  · exact Nat.le_trans (Nat.le_trans next.cursor (List.tail_sublist _).length_le) h.cursor

end Reply.Pays

/-! ## Single tokens and parameters -/

namespace Parse

variable {n : Nat} {ts us : List Token}

theorem length_tail_tail_le (ts : List Token) : ts.tail.tail.length ≤ ts.tail.length :=
  (List.tail_sublist ts.tail).length_le

theorem next_pays (kind : TokenKind) (ts : List Token) :
    (next kind ts).Pays ts.tail.length ts.length := by
  rw [next_eq]
  split
  · exact .done (length_tail_tail_le ts) (List.tail_sublist ts).length_le
  · exact .fail (Nat.le_refl _) (Nat.le_refl _)

theorem nextName_pays (ts : List Token) : (nextName ts).Pays ts.tail.length ts.length := by
  by_cases named : headKind ts.tail = .ident
  · rcases headKind_eq_ident_iff.1 named with ⟨x, rest, follows⟩
    rw [nextName_eq_done_iff.2 ⟨rfl, rest, follows⟩]
    exact .done (length_tail_tail_le ts) (List.tail_sublist ts).length_le
  · rw [nextName_of_ne named]
    exact .fail (Nat.le_refl _) (Nat.le_refl _)

/-- Behind the first token there is another one, if it has a kind. -/
theorem one_lt_length {kind : TokenKind} (more : headKind ts.tail = kind) (other : kind ≠ .eof) :
    1 < ts.length := by
  match ts, more with
  | [], more => exact absurd more.symm other
  | [_], more => exact absurd more.symm other
  | _ :: _ :: rest, _ => exact Nat.succ_lt_succ (Nat.zero_lt_succ rest.length)

theorem moreParams_pays (ts : List Token) : (moreParams ts).Pays ts.tail.length ts.length := by
  induction size : ts.length using Nat.strongRecOn generalizing ts with
  | ind m ih =>
    rw [moreParams_eq]
    split
    · rename_i comma
      have more := one_lt_length comma nofun
      have shorter : ts.tail.length = ts.length - 1 := List.length_tail
      have name := (nextName_pays ts.tail).mono (length_tail_tail_le ts) (Nat.le_refl _)
      have others := name.bind fun x us le => (ih us.length (by omega) us rfl).map (g := (x :: ·))
      exact others.mono (Nat.le_refl _) (by omega)
    · exact .done (Nat.le_refl _) (Nat.le_of_eq size)

theorem params_pays (ts : List Token) : (params ts).Pays ts.tail.length ts.length := by
  rw [params_eq]
  split
  · exact .done (length_tail_tail_le ts) (List.tail_sublist ts).length_le
  · exact (nextName_pays ts).bind fun x us _ => (moreParams_pays us).bind fun xs vs _ =>
      (next_pays _ vs).map

/-! ## Readers of expressions -/

/-- Expressions of less than `n` tokens pay. -/
def ExpressionPays (n : Nat) : Prop :=
  ∀ p ⦃ts⦄, ts.length < n → (expression p ts).Pays ts.tail.length ts.length

/-- What is read behind the cursor pays with the tokens there. -/
theorem ExpressionPays.behind (h : ExpressionPays n) (p : Precedence) (short : ts.length ≤ n)
    (positive : 0 < n) : (expression p ts.tail).Pays ts.tail.length ts.length := by
  have shorter : ts.tail.length = ts.length - 1 := List.length_tail
  exact (h p (by omega)).mono (length_tail_tail_le ts) (List.tail_sublist ts).length_le

theorem moreElements_pays (h : ExpressionPays n) (short : ts.length ≤ n) :
    (moreElements ts).Pays ts.tail.length ts.length := by
  induction size : ts.length using Nat.strongRecOn generalizing ts with
  | ind m ih =>
    rw [moreElements_eq]
    split
    · rename_i comma
      have more := one_lt_length comma nofun
      have shorter : ts.tail.length = ts.length - 1 := List.length_tail
      have first : (expression .lowest ts.tail.tail).Pays ts.tail.tail.length ts.tail.length :=
        h.behind .lowest (by omega) (by omega)
      have others := first.bind fun e us le =>
        (ih us.length (by omega) (by omega) rfl).map (g := (e :: ·))
      exact others.mono (length_tail_tail_le ts) (by omega)
    · exact .done (Nat.le_refl _) (Nat.le_of_eq size)

/-- The elements stand behind a bracket, so the first one may record something as well. -/
theorem elements_pays (h : ExpressionPays n) (close : Symbol) (short : ts.length < n) :
    (elements close ts).Pays ts.length ts.length := by
  have tail : ts.tail.length ≤ ts.length := (List.tail_sublist ts).length_le
  rw [elements_eq]
  split
  · exact .done tail (Nat.le_refl _)
  · refine Reply.Pays.mono ?_ tail (Nat.le_refl _)
    exact (h .lowest short).bind fun e us le =>
      (moreElements_pays h (by omega)).bind fun es vs _ => (next_pays _ vs).map

theorem pairs_pays (h : ExpressionPays n) (short : ts.length < n) :
    (pairs ts).Pays ts.length ts.length := by
  induction size : ts.length using Nat.strongRecOn generalizing ts with
  | ind m ih =>
    have tail : ts.tail.length ≤ ts.length := (List.tail_sublist ts).length_le
    rw [pairs_eq]
    split
    · exact .done (Nat.le_trans tail (Nat.le_of_eq size)) (Nat.le_of_eq size)
    · subst size
      refine Reply.Pays.mono ?_ tail (Nat.le_refl _)
      by_cases empty : ts = []
      · subst empty
        rw [expression_nil, Reply.fail_bind]
        exact .fail (Nat.le_refl _) (Nat.le_refl _)
      · have some : 0 < ts.length := List.length_pos_iff.2 empty
        refine (h .lowest short).bind fun key us le => (next_pays _ us).bind fun _ vs le' => ?_
        refine (h.behind .lowest (by omega) (by omega)).bind fun value ws le'' => ?_
        split
        · exact .done (length_tail_tail_le ws) (List.tail_sublist ws).length_le
        · refine (next_pays _ ws).bind fun _ xs le₃ => ?_
          have shorter : xs.tail.length = xs.length - 1 := List.length_tail
          exact (ih xs.tail.length (by omega) (by omega) rfl).behind.map

theorem resumed_pays (h : ExpressionPays n) (k : Continuation) (left : Expr) (short : ts.length < n) :
    (resumed k left ts).Pays ts.length ts.length := by
  have tail : ts.tail.length ≤ ts.length := (List.tail_sublist ts).length_le
  rw [resumed_eq]
  cases k with
  | operator op => exact (h op.precedence short).map.mono tail (Nat.le_refl _)
  | call => exact (elements_pays h .closeParen short).map
  | index =>
    refine Reply.Pays.mono ?_ tail (Nat.le_refl _)
    exact (h .lowest short).bind fun i us _ => (next_pays _ us).map

/-- The loop behind an operand. -/
theorem continued_pays (h : ExpressionPays n) (p : Precedence) (left : Expr) (short : ts.length ≤ n) :
    (continued p left ts).Pays ts.tail.length ts.length := by
  induction size : ts.length using Nat.strongRecOn generalizing ts left with
  | ind m ih =>
    subst size
    have stop : (Reply.done left ts).Pays ts.tail.length ts.length :=
      .done (Nat.le_refl _) (Nat.le_refl _)
    rw [continued_eq]
    split
    · rename_i k told
      split
      · have other : headKind ts.tail ≠ .eof := by
          intro ended
          rw [ended] at told
          cases told
        have more := one_lt_length rfl other
        have shorter : ts.tail.tail.length = ts.length - 1 - 1 := by
          rw [List.length_tail, List.length_tail]
        have short' : ts.tail.tail.length < n := by omega
        have once := resumed_pays h k left short'
        have whole := once.bind fun e us le => ih us.length (by omega) e (by omega) rfl
        exact whole.mono (length_tail_tail_le ts) (by omega)
      · exact stop
    · exact stop

/-! ## Readers of statements -/

theorem skipSemicolon_pays {a : α} (ts : List Token) :
    (Reply.done a (skipSemicolon ts)).Pays ts.tail.length ts.length := by
  unfold skipSemicolon
  split
  · exact .done (length_tail_tail_le ts) (List.tail_sublist ts).length_le
  · exact .done (Nat.le_refl _) (Nat.le_refl _)

theorem statement_pays (h : ExpressionPays n) (short : ts.length < n) :
    (statement ts).Pays ts.tail.length ts.length := by
  rw [statement_eq]
  split
  · refine (nextName_pays _).bind fun x us le => (next_pays _ us).bind fun _ vs le' => ?_
    exact (h.behind .lowest (by omega) (by omega)).bind fun value ws _ => skipSemicolon_pays ws
  · have value := h.behind .lowest (Nat.le_of_lt short) (Nat.zero_lt_of_lt short)
    exact value.bind fun value us _ => skipSemicolon_pays us
  · exact (h .lowest short).bind fun value us _ => skipSemicolon_pays us

/-- Each statement of a block begins at a token of its own. -/
theorem block_pays (h : ExpressionPays n) (short : ts.length < n) :
    (block ts).Pays ts.length ts.length := by
  induction size : ts.length using Nat.strongRecOn generalizing ts with
  | ind m ih =>
    subst size
    rw [block_eq]
    split
    · exact .done (List.tail_sublist ts).length_le (Nat.le_refl _)
    · rename_i open_
      have some : 0 < ts.length := by
        cases ts with
        | nil => exact absurd (.inr rfl) open_
        | cons t rest => exact Nat.zero_lt_succ _
      have tail : ts.tail.length + 1 ≤ ts.length := by
        rw [List.length_tail]
        omega
      refine ((statement_pays h short).collect fun us le => ?_).mono tail (Nat.le_refl _)
      have shorter : us.tail.length = us.length - 1 := List.length_tail
      exact ih us.tail.length (by omega) (by omega) rfl

/-- A block behind the cursor. -/
theorem braced_pays (h : ExpressionPays n) (short : ts.length ≤ n) (positive : 0 < n) :
    (block ts.tail).Pays ts.tail.length ts.length := by
  have shorter : ts.tail.length = ts.length - 1 := List.length_tail
  exact (block_pays h (by omega)).behind

/-! ## All readers -/

theorem alternative_pays (h : ExpressionPays n) (test : Expr) (yes : Block) (short : ts.length ≤ n)
    (positive : 0 < n) : (alternative test yes ts).Pays ts.tail.length ts.length := by
  have tail : ts.tail.length ≤ ts.length := (List.tail_sublist ts).length_le
  rw [alternative_eq]
  split
  · have brace := (next_pays (.symbol .openBrace) ts.tail).bind fun _ us le =>
      (braced_pays h (by omega) positive).map (g := fun no => Expr.cond test yes (some no))
    exact brace.mono (length_tail_tail_le ts) tail
  · exact .done (Nat.le_refl _) (Nat.le_refl _)

theorem operand_pays (h : ExpressionPays n) (short : ts.length ≤ n) (positive : 0 < n) :
    (operand ts).Pays ts.tail.length ts.length := by
  rw [operand_eq]
  split
  case h_1 | h_14 => exact .fail (Nat.le_refl _) (Nat.le_refl _)
  case h_2 | h_4 | h_5 | h_6 => exact .done (Nat.le_refl _) (Nat.le_refl _)
  case h_3 digits rest =>
    split
    · exact .done (Nat.le_refl _) (Nat.le_refl _)
    · exact .fail (Nat.le_refl _) (Nat.le_refl _)
  case h_7 | h_8 => exact (h.behind .unary short positive).map
  case h_9 => exact (h.behind .lowest short positive).bind fun e us _ => (next_pays _ us).map
  case h_10 => exact (elements_pays h .closeBracket short).map.mono (Nat.le_refl _) (Nat.le_succ _)
  case h_11 => exact (pairs_pays h short).map.mono (Nat.le_refl _) (Nat.le_succ _)
  case h_12 =>
    refine (next_pays _ _).bind fun _ us le => (params_pays us).bind fun xs vs le' => ?_
    exact (next_pays _ vs).bind fun _ ws le'' => (braced_pays h (by omega) positive).map
  case h_13 =>
    refine (next_pays _ _).bind fun _ us le => ?_
    refine (h.behind .lowest (by omega) positive).bind fun test vs le' => ?_
    refine (next_pays _ vs).bind fun _ ws le'' => (next_pays _ ws).bind fun _ xs le₃ => ?_
    exact (braced_pays h (by omega) positive).bind fun yes ys le₄ =>
      alternative_pays h test yes (by omega) positive

/-- The induction on the length. -/
theorem expression_pays (n : Nat) : ExpressionPays n := by
  induction n with
  | zero =>
    intro p ts short
    exact absurd short (Nat.not_lt_zero _)
  | succ n ih =>
    intro p ts short
    rw [expression_eq]
    rcases Nat.eq_zero_or_pos n with rfl | positive
    · have empty : ts = [] := List.eq_nil_of_length_eq_zero (by omega)
      subst empty
      rw [operand_eq, Reply.fail_bind]
      exact .fail (Nat.le_refl _) (Nat.le_refl _)
    · exact (operand_pays ih (by omega) positive).bind fun left us le =>
        continued_pays ih p left (by omega)

end Parse

/-! ## Programs -/

/-- A statement that does not fit is an error. -/
theorem Reply.length_built_add_errors (r : Reply α) :
    r.built.length + r.errors.length = r.recorded.length + 1 := by
  rcases r with ⟨_ | a, recorded, cursor⟩
  · simp [built, errors]
  · simp [built, errors, Nat.add_comm]

/-- There are no more statements and errors than tokens. -/
theorem Draft.length_le (ts : List Token) :
    (ofTokens ts).statements.length + (ofTokens ts).errors.length ≤ ts.length := by
  induction size : ts.length using Nat.strongRecOn generalizing ts with
  | ind n ih =>
    cases ts with
    | nil =>
      rw [ofTokens]
      exact Nat.zero_le _
    | cons t rest =>
      have paid := (Parse.statement_pays (Parse.expression_pays _)
        (Nat.lt_succ_self (t :: rest).length)).tokens
      have one := (Parse.statement (t :: rest)).length_built_add_errors
      rw [ofTokens_cons, List.length_append, List.length_append]
      -- Behind the first statement there are fewer tokens, and they pay for the others.
      generalize Parse.statement (t :: rest) = first at *
      rw [List.length_cons] at size
      rw [List.tail_cons] at paid
      have others := ih first.cursor.tail.length (by omega) first.cursor.tail rfl
      omega

/-- If there are tokens, then there is a statement or an error. -/
theorem Draft.exists_of_cons (t : Token) (rest : List Token) :
    0 < (ofTokens (t :: rest)).statements.length + (ofTokens (t :: rest)).errors.length := by
  have one := (Parse.statement (t :: rest)).length_built_add_errors
  rw [ofTokens_cons, List.length_append, List.length_append]
  omega

end Script
