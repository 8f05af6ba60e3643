import Script.Proofs.Canonical
import Script.Proofs.Canonical.Parsed
import Script.Proofs.Content.Basic

/-!
# Printing keeps the content

The tokens of an accepted text hold the content of the program that the text is accepted as, nothing
else and in the same order. The canonical text is accepted as the same program, so its tokens hold
the same content. The only difference is at the end: where a text ends inside blocks, the canonical
text closes them.
-/

namespace Script

open Grammar

/-! ## Forms -/

namespace Yields

variable {ts us rest : List Token} {content : List Piece}

theorem parenthesised (h : Yields ts (.symbol .closeParen :: rest) content) :
    Yields (.symbol .openParen :: ts) rest content := by
  have opening : Yields (.symbol .openParen :: ts) ts [] := token (by simp) (by simp)
  have closing : Yields (.symbol .closeParen :: rest) rest [] := token (by simp) (by simp)
  simpa using opening.trans (h.trans closing)

theorem bracketed (h : Yields ts (.symbol .closeBracket :: rest) content) :
    Yields (.symbol .openBracket :: ts) rest (inBrackets content) :=
  (token (by simp) (by simp)).trans (h.trans (token (by simp) (by simp)))

theorem keyword (k : Keyword) : Yields (.keyword k :: ts) ts [.token (.keyword k)] :=
  token (by simp) (by simp)

theorem ident (x : String) : Yields (.ident x :: ts) ts [.token (.ident x)] :=
  token (by simp) (by simp)

theorem unaryOp (op : UnaryOp) :
    Yields (.symbol op.symbol :: ts) ts [.token (.symbol op.symbol)] := by
  cases op <;> exact token (by decide) (by decide)

theorem binaryOp (op : BinaryOp) :
    Yields (.symbol op.symbol :: ts) ts [.token (.symbol op.symbol)] := by
  cases op <;> exact token (by decide) (by decide)

theorem colon : Yields (.symbol .colon :: ts) ts [.token (.symbol .colon)] :=
  token (by simp) (by simp)

theorem assign : Yields (.symbol .assign :: ts) ts [.token (.symbol .assign)] :=
  token (by simp) (by simp)

theorem moreParams (params : List String) :
    Yields ((params.flatMap fun x => [.symbol .comma, .ident x]) ++ rest) rest
      ((params.flatMap fun x => [.symbol .comma, .ident x]).map .token) := by
  induction params with
  | nil => exact nothing
  | cons x params ih => exact (comma (by simp [Token.kind])).trans ((ident x).trans ih)

theorem params (params : List String) :
    Yields (paramTokens params ++ rest) rest ((paramTokens params).map .token) := by
  cases params with
  | nil => exact nothing
  | cons x params => exact (ident x).trans (moreParams params)

end Yields

/-! ## Phrases -/

/-- What the tokens of a phrase hold. The pairs of a hash may end in a comma, which is seen at the
brace behind them. -/
def Holds : (phrase : Phrase) → List Token → phrase.Tree → List Token → Prop
  | .expr _, ts, e, rest => Yields ts rest e.pieces
  | .elements, ts, es, rest => Yields ts rest (separated (listPieces es))
  | .moreElements, ts, es, rest => Yields ts rest ((listPieces es).flatMap (.comma :: ·))
  | .pairs, ts, ps, rest =>
    headKind rest = .symbol .closeBrace → Yields ts rest (separated (pairsPieces ps))
  | .block, ts, body, rest => Yields ts rest (inBraces (blockPieces body))
  | .sentence, ts, s, rest | .statement, ts, s, rest => Yields ts rest s.pieces
  | .statements, ts, body, rest => Yields ts rest (blockPieces body)

theorem ne_closeBrace_of_startsExpr {kind : TokenKind} (h : kind.startsExpr) :
    kind ≠ .symbol .closeBrace :=
  ne_symbol_of_startsStatement (startsStatement_of_startsExpr h) (by decide)

/-- Pairs start like an expression, unless there are none. -/
theorem Grammar.Derives.pairs_starts {ts rest : List Token} {ps : List (Expr × Expr)}
    (h : Derives .pairs ts ps rest) :
    ps = [] ∧ ts = rest ∨ ∃ p others, ps = p :: others ∧ headKind ts ≠ .symbol .closeBrace := by
  cases h with
  | noPairs => exact .inl ⟨rfl, rfl⟩
  | lastPair key _ => exact .inr ⟨_, _, rfl, ne_closeBrace_of_startsExpr key.starts⟩
  | pairs key _ _ => exact .inr ⟨_, _, rfl, ne_closeBrace_of_startsExpr key.starts⟩

theorem Grammar.Derives.holds {phrase : Phrase} {ts rest : List Token} {tree : phrase.Tree}
    (h : Derives phrase ts tree rest) : Holds phrase ts tree rest := by
  induction h with
  | tighter _ ih => exact ih
  | binary _ _ left right => exact left.trans ((Yields.binaryOp _).trans right)
  | unary _ ih => exact (Yields.unaryOp _).trans ih
  | call _ _ callee given => exact callee.trans (Yields.parenthesised given)
  | index _ _ collection position => exact collection.trans (Yields.bracketed position)
  -- Atoms.
  | name => exact .ident _
  | @int digits n rest value =>
    have kept : Yields (.int digits :: rest) rest [.number (Decimal.toNat digits.toList)] :=
      .token (by simp) (by simp)
    rw [← Int.toNat_natCast (Decimal.toNat _), ← value] at kept
    exact kept
  | str => exact .token (by simp) (by simp)
  | true => exact .keyword _
  | false => exact .keyword _
  | group _ ih => exact Yields.parenthesised ih
  | cond _ _ tested branch =>
    have whole := (Yields.keyword .ifWord).trans ((Yields.parenthesised tested).trans branch)
    simpa [Holds, Expr.pieces] using whole
  | condElse _ _ _ tested branch other =>
    have head := (Yields.keyword .ifWord).trans ((Yields.parenthesised tested).trans branch)
    have whole := head.trans ((Yields.keyword .elseWord).trans other)
    simpa [Holds, Expr.pieces] using whole
  | @fn params ts _ body _ ih =>
    have names : Yields (.symbol .openParen :: (paramTokens params ++ .symbol .closeParen :: ts)) ts
        ((paramTokens params).map .token) := (Yields.params params).parenthesised
    exact (Yields.keyword .fnWord).trans (names.trans ih)
  | array _ ih => exact Yields.bracketed ih
  | hash _ ih => exact (ih rfl).braced
  -- Lists.
  | noElements | noMore => exact .nothing
  | noPairs => exact fun _ => .nothing
  | elements _ _ first others => exact first.trans others
  | more e _ first others =>
    have kept := Yields.comma (ne_closeBrace_of_startsExpr e.starts)
    simpa [Holds, listPieces] using kept.trans (first.trans others)
  | lastPair _ _ first second =>
    intro _
    simpa [separated, pairsPieces] using first.trans (Yields.colon.trans second)
  | pairs _ _ more first second others =>
    intro closes
    have pair := first.trans (Yields.colon.trans second)
    rcases more.pairs_starts with ⟨rfl, rfl⟩ | ⟨p, ps, rfl, noBrace⟩
    -- Behind the last pair the comma counts for nothing.
    · simpa [separated, pairsPieces] using pair.trans (Yields.lastComma closes)
    · simpa [separated, pairsPieces] using pair.trans ((Yields.comma noBrace).trans (others closes))
  -- Statements.
  | block _ ih => exact Yields.braced ih
  | openBlock _ ih => exact Yields.openEnd ih
  | bind _ ih =>
    exact (Yields.keyword .letWord).trans ((Yields.ident _).trans (Yields.assign.trans ih))
  | leave _ ih => exact (Yields.keyword .returnWord).trans ih
  | expr _ ih => exact ih
  | @ended _ rest _ _ ih =>
    have semicolon : Yields (.symbol .semicolon :: rest) rest [] := .token (by simp) (by simp)
    simpa [Holds] using ih.trans semicolon
  | bare _ _ ih => exact ih
  | noStatements => exact .nothing
  | statements _ _ first others => exact first.trans others

/-! ## Programs -/

/-- The tokens of a program hold its content, up to the braces that its end leaves open. -/
theorem pieces_of_derives {ts : List Token} {program : Program}
    (h : Derives .statements ts program []) :
    pieces ts ++ List.replicate (openBraces 0 ts) .closeBrace = blockPieces program := by
  rcases h.holds.left with ⟨left, -, braces, kept⟩
  have counted : openBraces 0 ts = left := by
    rw [braces, openBraces, Nat.zero_add]
  rw [counted, kept, pieces, List.append_nil]

theorem blockPieces_append (body others : Block) :
    blockPieces (body ++ others) = blockPieces body ++ blockPieces others := by
  induction body with
  | nil => rfl
  | cons s body ih => simp [blockPieces, ih]

/-- The canonical text of a program holds its content, and closes all its blocks. -/
theorem pieces_render {program : Program} (wf : program.wellFormed = true) :
    pieces (tokens program.render) = blockPieces program := by
  rcases Program.printed (printed_block program wf) with ⟨ts, ⟨-, rfl⟩, reads⟩
  -- One more name behind it is accepted too, and its piece comes last, so no brace is missing.
  have name : Derives .statements [.ident "x"] [.expr (.name "x")] [] :=
    .statements (.bare (.expr (Derives.name.loosen (by decide))) (by decide)) .noStatements
  have read : Draft.ofTokens (tokens program.render ++ [.ident "x"]) =
      ⟨program ++ [.expr (.name "x")], []⟩ := by
    rw [reads, Draft.ofTokens_of_derives name]
  have derives : Derives .statements (tokens program.render ++ [.ident "x"])
      (program ++ [.expr (.name "x")]) [] := by
    have whole := Draft.derives_of_errors (congrArg Draft.errors read)
    rwa [read] at whole
  have kept := pieces_of_derives derives
  rw [pieces_append _ (by simp [Token.kind]), blockPieces_append] at kept
  cases missing : openBraces 0 (tokens program.render ++ [.ident "x"]) with
  | zero =>
    rw [missing, List.replicate_zero, List.append_nil] at kept
    exact List.append_cancel_right kept
  | succ n =>
    rw [missing, List.replicate_succ', ← List.append_assoc] at kept
    cases (List.append_inj' kept rfl).2

/-- Printing an accepted text loses, adds and moves nothing: the canonical text has the pieces of the
text, and closes the blocks that the text ends in. -/
theorem Program.pieces_text {source : String} {program : Program}
    (h : Program.parse source = .ok program) :
    pieces (tokens program.text.toList) =
      pieces (tokens source.toList) ++
        List.replicate (openBraces 0 (tokens source.toList)) .closeBrace := by
  have characters : program.text.toList = program.render := String.toList_ofList
  rw [characters, pieces_render (Program.wellFormed_of_parse h),
    pieces_of_derives (Program.derives_of_parse h)]

/-- For example, a trailing comma and leading zeros go, and two blocks are closed. -/
theorem Program.pieces_text_open :
    let source := "let h = \x7b1: 007,\x7d; fn(x) \x7b if (x) \x7b h"
    ∃ program, Program.parse source = .ok program ∧
      pieces (tokens program.text.toList) =
        pieces (tokens source.toList) ++ [.closeBrace, .closeBrace] := by
  intro source
  have accepted : (Draft.ofText source).errors.isEmpty = true := by
    decide +kernel
  have read : Program.parse source = .ok (Draft.ofText source).statements := by
    simp [Program.parse, List.isEmpty_iff.1 accepted]
  have blocks : openBraces 0 (tokens source.toList) = 2 := by
    decide +kernel
  refine ⟨_, read, ?_⟩
  have whole := Program.pieces_text read
  rwa [blocks] at whole

end Script
