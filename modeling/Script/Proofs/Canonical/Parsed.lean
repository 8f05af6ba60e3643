import Script.Program.Parse.Equations
import Script.Proofs.Canonical.WellFormed
import Script.Proofs.Grammar.Replies
import Script.Proofs.Token.Lexical

/-!
# What is read is well-formed

A tree takes its names and strings from the tokens and its integers from digits, so the tokens of a
text can only build trees that a text can denote. This is so for every reply, complete or not: a block
out of which statements were left is built from those that fit, and behind an error reading goes on
with tokens of the same text.

`r.Builds P ts` says this of one reply. There is one lemma for each reader, with expressions taken for
granted below some length, and one induction on the length.
-/

namespace Script

variable {α β : Type}

/-! ## Replies -/

/-- What the reply has built satisfies `P`, and its cursor stands in `ts`. -/
structure Reply.Builds (P : α → Prop) (ts : List Token) (r : Reply α) : Prop where
  built : ∀ a, r.outcome = .ok a → P a
  cursor : r.cursor <:+ ts

namespace Reply.Builds

variable {P : α → Prop} {Q : β → Prop} {ts us : List Token} {r : Reply α}

theorem done {a : α} (pass : P a) (suffix : us <:+ ts) : (Reply.done a us).Builds P ts where
  built := fun _ same => Except.ok.inj same ▸ pass
  cursor := suffix

theorem fail {e : ParseError} (suffix : us <:+ ts) : (Reply.fail e us : Reply α).Builds P ts where
  built := nofun
  cursor := suffix

theorem within (h : r.Builds P us) (suffix : us <:+ ts) : r.Builds P ts where
  built := h.built
  cursor := h.cursor.trans suffix

/-- What goes on does so from a cursor in `ts`, with something that satisfies `P`. -/
theorem bind {f : α → List Token → Reply β} (h : r.Builds P ts)
    (others : ∀ a us, P a → us <:+ ts → (f a us).Builds Q us) : (r.bind f).Builds Q ts := by
  rcases r with ⟨e | a, recorded, cursor⟩
  · exact ⟨nofun, h.cursor⟩
  · have next := others a cursor (h.built a rfl) h.cursor
    exact ⟨next.built, next.cursor.trans h.cursor⟩

theorem map {g : α → β} (h : r.Builds P ts) (pass : ∀ a, P a → Q (g a)) :
    (r.map g).Builds Q ts := by
  rw [map_eq_bind]
  exact h.bind fun a us built _ => .done (pass a built) (List.suffix_refl us)

/-- An item that does not fit is left out, and reading goes on behind the cursor all the same. -/
theorem collect {f : List Token → Reply (List α)} (h : r.Builds P ts)
    (others : ∀ us, us <:+ ts → (f us.tail).Builds (fun items => ∀ a ∈ items, P a) us.tail) :
    (r.collect f).Builds (fun items => ∀ a ∈ items, P a) ts := by
  have next := others r.cursor h.cursor
  have behind : r.cursor.tail <:+ ts := (List.tail_suffix _).trans h.cursor
  refine ⟨fun items built => ?_, next.cursor.trans behind⟩
  rcases read : (f r.cursor.tail).outcome with e | more
  · simp [Reply.collect, read, Except.map] at built
  · simp only [Reply.collect, read, Except.map, Except.ok.injEq] at built
    rw [← built]
    refine List.forall_mem_append.2 ⟨fun a here => ?_, next.built more read⟩
    cases fits : r.outcome with
    | error e => simp [Reply.built, fits] at here
    | ok b =>
      simp only [Reply.built, fits, List.mem_singleton] at here
      exact here ▸ h.built b fits

end Reply.Builds

/-! ## Single tokens and parameters -/

namespace Parse

variable {n : Nat} {t : Token} {ts us : List Token}

theorem tail_suffix_of_cons (h : us <:+ t :: ts) : us.tail <:+ ts := by
  rcases List.suffix_cons_iff.1 h with rfl | later
  · exact List.suffix_refl ts
  · exact (List.tail_suffix us).trans later

/-- What stands behind the first token is shorter, if the first token is not the last one. -/
theorem length_lt_of_suffix_tail {kind : TokenKind} (more : headKind ts.tail = kind)
    (other : kind ≠ .eof) (h : us <:+ ts.tail) : us.length < ts.length := by
  cases ts with
  | nil => exact absurd more.symm other
  | cons t ts => exact Nat.lt_succ_of_le h.length_le

theorem next_builds (kind : TokenKind) (ts : List Token) :
    (next kind ts).Builds (fun _ => True) ts := by
  rw [next_eq]
  split
  · exact .done trivial (List.tail_suffix ts)
  · exact .fail (List.suffix_refl ts)

theorem nextName_builds (lexical : Lexical ts) :
    (nextName ts).Builds (fun x => isName x = true) ts := by
  by_cases named : headKind ts.tail = .ident
  · rcases headKind_eq_ident_iff.1 named with ⟨x, rest, follows⟩
    rw [nextName_eq_done_iff.2 ⟨rfl, rest, follows⟩]
    have behind := List.tail_suffix ts
    have here : .ident x ∈ ts.tail := follows ▸ List.mem_cons_self
    exact .done (lexical _ (behind.subset here)) behind
  · rw [nextName_of_ne named]
    exact .fail (List.suffix_refl ts)

theorem moreParams_builds (lexical : Lexical ts) :
    (moreParams ts).Builds (fun xs => xs.all isName = true) ts := by
  induction size : ts.length using Nat.strongRecOn generalizing ts with
  | ind n ih =>
    rw [moreParams_eq]
    split
    · rename_i comma
      have inside := lexical.of_suffix (List.tail_suffix ts)
      refine ((nextName_builds inside).bind fun x us named suffix => ?_).within (List.tail_suffix ts)
      have shorter : us.length < n := size ▸ length_lt_of_suffix_tail comma nofun suffix
      refine (ih _ shorter (inside.of_suffix suffix) rfl).map fun xs names => ?_
      exact List.all_cons.trans (Bool.and_eq_true_iff.2 ⟨named, names⟩)
    · exact .done rfl (List.suffix_refl ts)

theorem params_builds (lexical : Lexical ts) :
    (params ts).Builds (fun xs => xs.all isName = true) ts := by
  rw [params_eq]
  split
  · exact .done rfl (List.tail_suffix ts)
  · refine (nextName_builds lexical).bind fun x us named suffix => ?_
    refine (moreParams_builds (lexical.of_suffix suffix)).bind fun xs vs names _ => ?_
    refine (next_builds _ vs).map fun _ _ => ?_
    exact List.all_cons.trans (Bool.and_eq_true_iff.2 ⟨named, names⟩)

/-! ## Readers of expressions -/

/-- Expressions of less than `n` tokens are built well-formed. -/
def ExpressionBuilds (n : Nat) : Prop :=
  ∀ p ⦃ts⦄, ts.length < n → Lexical ts →
    (expression p ts).Builds (fun e => e.wellFormed = true) ts

theorem moreElements_builds (h : ExpressionBuilds n) (short : ts.length ≤ n)
    (lexical : Lexical ts) :
    (moreElements ts).Builds (fun es => wellFormedList es = true) ts := by
  induction size : ts.length using Nat.strongRecOn generalizing ts with
  | ind m ih =>
    rw [moreElements_eq]
    split
    · rename_i comma
      have behind : ts.tail.tail <:+ ts.tail := List.tail_suffix _
      have inside := lexical.of_suffix (List.tail_suffix ts)
      have shorter := length_lt_of_suffix_tail comma nofun behind
      have first := h .lowest (Nat.lt_of_lt_of_le shorter short) (inside.of_suffix behind)
      refine ((first.within behind).bind fun e us built suffix => ?_).within (List.tail_suffix ts)
      have shorter' := length_lt_of_suffix_tail comma nofun suffix
      have short' : us.length ≤ n := Nat.le_trans (Nat.le_of_lt shorter') short
      refine (ih _ (size ▸ shorter') short' (inside.of_suffix suffix) rfl).map fun es others => ?_
      exact Bool.and_eq_true_iff.2 ⟨built, others⟩
    · exact .done rfl (List.suffix_refl ts)

theorem elements_builds (h : ExpressionBuilds n) (close : Symbol) (short : ts.length < n)
    (lexical : Lexical ts) :
    (elements close ts).Builds (fun es => wellFormedList es = true) ts := by
  rw [elements_eq]
  split
  · exact .done rfl (List.suffix_refl ts)
  · refine (h .lowest short lexical).bind fun e us built suffix => ?_
    have short' : us.length ≤ n := Nat.le_of_lt (Nat.lt_of_le_of_lt suffix.length_le short)
    refine (moreElements_builds h short' (lexical.of_suffix suffix)).bind fun es vs others _ => ?_
    exact (next_builds _ vs).map fun _ _ => Bool.and_eq_true_iff.2 ⟨built, others⟩

theorem pairs_builds (h : ExpressionBuilds n) (short : ts.length < n) (lexical : Lexical ts) :
    (pairs ts).Builds (fun ps => wellFormedPairs ps = true) ts := by
  induction size : ts.length using Nat.strongRecOn generalizing ts with
  | ind m ih =>
    rw [pairs_eq]
    split
    · exact .done rfl (List.suffix_refl ts)
    · cases ts with
      | nil =>
        rw [expression_nil, Reply.fail_bind]
        exact .fail (List.suffix_refl [])
      | cons t rest =>
        refine (h .lowest short lexical).bind fun key us keyBuilt suffix => ?_
        refine (next_builds _ us).bind fun _ vs _ suffix' => ?_
        -- From here on what is read stands behind the first token.
        have behind : vs.tail <:+ rest := tail_suffix_of_cons (suffix'.trans suffix)
        have lexical' := lexical.tail.of_suffix behind
        have short' : vs.tail.length < n :=
          Nat.lt_of_le_of_lt behind.length_le (Nat.lt_of_succ_lt short)
        refine ((h .lowest short' lexical').bind fun value ws valueBuilt suffix'' => ?_).within
          (List.tail_suffix vs)
        have pair (ps : List (Expr × Expr)) (others : wellFormedPairs ps = true) :
            wellFormedPairs ((key, value) :: ps) = true :=
          Bool.and_eq_true_iff.2 ⟨Bool.and_eq_true_iff.2 ⟨keyBuilt, valueBuilt⟩, others⟩
        split
        · exact .done (pair [] rfl) (List.tail_suffix ws)
        · refine (next_builds _ ws).bind fun _ xs _ suffix₃ => ?_
          have inner : xs.tail <:+ vs.tail := (List.tail_suffix xs).trans (suffix₃.trans suffix'')
          have shorter : xs.tail.length < m :=
            calc xs.tail.length
              _ ≤ rest.length := (inner.trans behind).length_le
              _ < m := size ▸ Nat.lt_succ_self _
          have others := ih _ shorter (Nat.lt_of_le_of_lt inner.length_le short')
            (lexical'.of_suffix inner) rfl
          exact (others.map fun ps built => pair ps built).within (List.tail_suffix xs)

theorem resumed_builds (h : ExpressionBuilds n) (k : Continuation) {left : Expr}
    (built : left.wellFormed = true) (short : ts.length < n) (lexical : Lexical ts) :
    (resumed k left ts).Builds (fun e => e.wellFormed = true) ts := by
  rw [resumed_eq]
  cases k with
  | operator op =>
    exact (h op.precedence short lexical).map fun e right =>
      Bool.and_eq_true_iff.2 ⟨built, right⟩
  | call =>
    exact (elements_builds h .closeParen short lexical).map fun es given =>
      Bool.and_eq_true_iff.2 ⟨built, given⟩
  | index =>
    refine (h .lowest short lexical).bind fun i us position _ => ?_
    exact (next_builds _ us).map fun _ _ => Bool.and_eq_true_iff.2 ⟨built, position⟩

/-- The loop behind an operand. -/
theorem continued_builds (h : ExpressionBuilds n) (p : Precedence) {left : Expr}
    (built : left.wellFormed = true) (short : ts.length ≤ n) (lexical : Lexical ts) :
    (continued p left ts).Builds (fun e => e.wellFormed = true) ts := by
  induction size : ts.length using Nat.strongRecOn generalizing ts left with
  | ind m ih =>
    rw [continued_eq]
    split
    · rename_i k told
      split
      · have more : headKind ts.tail ≠ .eof := by
          intro ended
          rw [ended] at told
          cases told
        have behind : ts.tail.tail <:+ ts.tail := List.tail_suffix _
        have inside := lexical.of_suffix (List.tail_suffix ts)
        have shorter := length_lt_of_suffix_tail rfl more behind
        have first := resumed_builds h k built (Nat.lt_of_lt_of_le shorter short)
          (inside.of_suffix behind)
        refine ((first.within behind).bind fun e us whole suffix => ?_).within (List.tail_suffix ts)
        have shorter' := length_lt_of_suffix_tail rfl more suffix
        have short' : us.length ≤ n := Nat.le_trans (Nat.le_of_lt shorter') short
        exact ih _ (size ▸ shorter') whole short' (inside.of_suffix suffix) rfl
      · exact .done built (List.suffix_refl ts)
    · exact .done built (List.suffix_refl ts)

/-! ## Readers of statements -/

theorem skipSemicolon_suffix (ts : List Token) : skipSemicolon ts <:+ ts := by
  unfold skipSemicolon
  split
  · exact List.tail_suffix ts
  · exact List.suffix_refl ts

theorem statement_builds (h : ExpressionBuilds n) (short : ts.length < n) (lexical : Lexical ts) :
    (statement ts).Builds (fun s => s.wellFormed = true) ts := by
  rw [statement_eq]
  split
  · rename_i rest
    refine (nextName_builds lexical).bind fun x us named suffix => ?_
    refine (next_builds _ us).bind fun _ vs _ suffix' => ?_
    have behind := tail_suffix_of_cons (suffix'.trans suffix)
    have value := h .lowest (Nat.lt_of_le_of_lt behind.length_le (Nat.lt_of_succ_lt short))
      (lexical.tail.of_suffix behind)
    refine (value.bind fun value ws built _ => ?_).within (List.tail_suffix vs)
    exact .done (Bool.and_eq_true_iff.2 ⟨named, built⟩) (skipSemicolon_suffix ws)
  · rename_i rest
    have value := h .lowest (Nat.lt_of_succ_lt short) lexical.tail
    refine (value.bind fun value us built _ => ?_).within (List.suffix_cons _ rest)
    exact .done built (skipSemicolon_suffix us)
  · exact (h .lowest short lexical).bind fun value us built _ =>
      .done built (skipSemicolon_suffix us)

/-- What does not fit is not built, so the statements of a block are well-formed even if others were
left out. -/
theorem block_builds (h : ExpressionBuilds n) (short : ts.length < n) (lexical : Lexical ts) :
    (block ts).Builds (fun body => ∀ s ∈ body, s.wellFormed = true) ts := by
  induction size : ts.length using Nat.strongRecOn generalizing ts with
  | ind m ih =>
    rw [block_eq]
    split
    · exact .done (List.forall_mem_nil _) (List.suffix_refl ts)
    · rename_i open_
      refine (statement_builds h short lexical).collect fun us suffix => ?_
      cases ts with
      | nil => exact absurd (.inr rfl) open_
      | cons t rest =>
        have behind := tail_suffix_of_cons suffix
        have le := behind.length_le
        exact ih _ (size ▸ Nat.lt_succ_of_le le) (Nat.lt_of_le_of_lt le (Nat.lt_of_succ_lt short))
          (lexical.tail.of_suffix behind) rfl

/-! ## All readers -/

theorem alternative_builds (h : ExpressionBuilds n) {test : Expr} {yes : Block}
    (tested : test.wellFormed = true) (branch : wellFormedBlock yes = true)
    (short : ts.length < n) (lexical : Lexical ts) :
    (alternative test yes ts).Builds (fun e => e.wellFormed = true) ts := by
  have both := Bool.and_eq_true_iff.2 ⟨tested, branch⟩
  rw [alternative_eq]
  split
  · refine ((next_builds _ ts.tail).bind fun _ us _ suffix => ?_).within (List.tail_suffix ts)
    have behind := (List.tail_suffix us).trans (suffix.trans (List.tail_suffix ts))
    have other := block_builds h (Nat.lt_of_le_of_lt behind.length_le short)
      (lexical.of_suffix behind)
    refine (other.map fun no fits => ?_).within (List.tail_suffix us)
    exact Bool.and_eq_true_iff.2 ⟨both, wellFormedBlock_iff.2 fits⟩
  · exact .done (Bool.and_eq_true_iff.2 ⟨both, rfl⟩) (List.suffix_refl ts)

/-- Digits denote integers without a sign. -/
theorem wellFormed_int {i : Int64} {digits : List Char} (h : Integer.ofLiteral? digits = some i) :
    (Expr.int i).wellFormed = true := by
  refine decide_eq_true (Int64.le_iff_toInt_le.2 ?_)
  rw [Integer.ofLiteral?_eq_some_iff.1 h]
  exact Int.natCast_nonneg _

theorem operand_fn_builds (h : ExpressionBuilds n) (short : ts.length < n)
    (lexical : Lexical (.keyword .fnWord :: ts)) :
    (operand (.keyword .fnWord :: ts)).Builds (fun e => e.wellFormed = true)
      (.keyword .fnWord :: ts) := by
  rw [operand_eq]
  refine (next_builds _ _).bind fun _ us _ suffix => ?_
  refine (params_builds (lexical.of_suffix suffix)).bind fun xs vs names suffix' => ?_
  refine (next_builds _ vs).bind fun _ ws _ suffix'' => ?_
  have behind := tail_suffix_of_cons (suffix''.trans (suffix'.trans suffix))
  have body := block_builds h (Nat.lt_of_le_of_lt behind.length_le short)
    (lexical.tail.of_suffix behind)
  refine (body.map fun body fits => ?_).within (List.tail_suffix ws)
  exact Bool.and_eq_true_iff.2 ⟨names, wellFormedBlock_iff.2 fits⟩

theorem operand_if_builds (h : ExpressionBuilds n) (short : ts.length < n)
    (lexical : Lexical (.keyword .ifWord :: ts)) :
    (operand (.keyword .ifWord :: ts)).Builds (fun e => e.wellFormed = true)
      (.keyword .ifWord :: ts) := by
  -- What stands behind the first token is short enough for the parts of the condition.
  have inner {us : List Token} (suffix : us <:+ ts) : us.length < n ∧ Lexical us :=
    ⟨Nat.lt_of_le_of_lt suffix.length_le short, lexical.tail.of_suffix suffix⟩
  rw [operand_eq]
  refine (next_builds _ _).bind fun _ us _ suffix => ?_
  have behind := tail_suffix_of_cons suffix
  have test := h .lowest (inner behind).1 (inner behind).2
  refine (test.bind fun test vs tested suffix' => ?_).within (List.tail_suffix us)
  refine (next_builds _ vs).bind fun _ ws _ suffix'' => ?_
  refine (next_builds _ ws).bind fun _ xs _ suffix₃ => ?_
  have opened : xs <:+ ts := suffix₃.trans (suffix''.trans (suffix'.trans behind))
  have branch := (List.tail_suffix xs).trans opened
  have yes := block_builds h (inner branch).1 (inner branch).2
  refine (yes.bind fun yes ys fits suffix₄ => ?_).within (List.tail_suffix xs)
  have closed := suffix₄.trans branch
  exact alternative_builds h tested (wellFormedBlock_iff.2 fits) (inner closed).1 (inner closed).2

theorem operand_builds (h : ExpressionBuilds n) (short : ts.length ≤ n) (lexical : Lexical ts) :
    (operand ts).Builds (fun e => e.wellFormed = true) ts := by
  cases ts with
  | nil =>
    rw [operand_eq]
    exact .fail (List.suffix_refl [])
  | cons t rest =>
    have here := List.suffix_refl (t :: rest)
    have behind := List.suffix_cons t rest
    have unary (op : UnaryOp) := (h .unary short lexical.tail).map
      (Q := fun e => e.wellFormed = true) (g := Expr.unary op) fun e built => built
    cases t with
    | illegal c =>
      rw [operand_eq]
      exact .fail here
    | ident x =>
      rw [operand_eq]
      exact .done (lexical _ List.mem_cons_self) here
    | str text =>
      rw [operand_eq]
      exact .done (lexical _ List.mem_cons_self) here
    | int digits =>
      rw [operand_eq]
      cases value : Integer.ofLiteral? digits.toList with
      | none =>
        simp only [value]
        exact .fail here
      | some i =>
        simp only [value]
        exact .done (wellFormed_int value) here
    | symbol s =>
      cases s with
      | bang =>
        rw [operand_eq]
        exact (unary .not).within behind
      | minus =>
        rw [operand_eq]
        exact (unary .negate).within behind
      | openParen =>
        rw [operand_eq]
        refine ((h .lowest short lexical.tail).bind fun e us built _ => ?_).within behind
        exact (next_builds _ us).map fun _ _ => built
      | openBracket =>
        rw [operand_eq]
        have items := elements_builds h .closeBracket short lexical.tail
        exact (items.map fun es built => built).within behind
      | openBrace =>
        rw [operand_eq]
        exact ((pairs_builds h short lexical.tail).map fun ps built => built).within behind
      | _ =>
        rw [operand_eq]
        exact .fail here
    | keyword k =>
      cases k with
      | trueWord | falseWord =>
        rw [operand_eq]
        exact .done rfl here
      | fnWord => exact operand_fn_builds h short lexical
      | ifWord => exact operand_if_builds h short lexical
      | _ =>
        rw [operand_eq]
        exact .fail here

/-- The induction on the length. -/
theorem expression_builds (n : Nat) : ExpressionBuilds n := by
  induction n with
  | zero => exact fun _ _ short => absurd short (Nat.not_lt_zero _)
  | succ n ih =>
    intro p ts short lexical
    have short' : ts.length ≤ n := Nat.le_of_lt_succ short
    rw [expression_eq]
    refine (operand_builds ih short' lexical).bind fun left us built suffix => ?_
    exact continued_builds ih p built (Nat.le_trans suffix.length_le short')
      (lexical.of_suffix suffix)

end Parse

/-! ## Programs -/

open Parse in
/-- Whatever the tokens, the statements that fit are well-formed. -/
theorem Draft.wellFormed_ofTokens {ts : List Token} (lexical : Lexical ts) :
    (ofTokens ts).statements.wellFormed = true := by
  induction size : ts.length using Nat.strongRecOn generalizing ts with
  | ind n ih =>
    cases ts with
    | nil =>
      rw [ofTokens]
      rfl
    | cons t rest =>
      have first := statement_builds (expression_builds _) (Nat.lt_succ_self _) lexical
      have behind := tail_suffix_of_cons first.cursor
      have others := ih _ (size ▸ Nat.lt_succ_of_le behind.length_le)
        (lexical.tail.of_suffix behind) rfl
      rw [ofTokens]
      refine wellFormedBlock_iff.2 (List.forall_mem_append.2 ⟨fun s here => ?_,
        wellFormedBlock_iff.1 others⟩)
      cases fits : (statement (t :: rest)).outcome with
      | error e => simp [Reply.built, fits] at here
      | ok s' =>
        simp only [Reply.built, fits, List.mem_singleton] at here
        exact here ▸ first.built s' fits

theorem Draft.wellFormed_ofText (source : String) :
    (Draft.ofText source).statements.wellFormed = true :=
  Draft.wellFormed_ofTokens (lexical_tokens source.toList)

/-- A program that a text is accepted as is well-formed. -/
theorem Program.wellFormed_of_parse {source : String} {program : Program}
    (h : Program.parse source = .ok program) : program.wellFormed = true := by
  unfold Program.parse at h
  dsimp only at h
  split at h
  · rw [← Except.ok.inj h]
    exact Draft.wellFormed_ofText source
  · cases h

end Script
