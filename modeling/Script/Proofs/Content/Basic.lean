import Script.Text.Decimal
import Script.Proofs.Grammar.Basic

/-!
# The content of tokens and of trees

Parentheses, semicolons and the comma that may end a hash shape the tree but leave no trace in it,
and of an integer only the value is kept. `pieces` is what is left of a list of tokens. Every tree has
a content too, the pieces of any text that denotes it.

`Yields ts rest content` says how the two meet: between `ts` and `rest` stands the content. It allows
for blocks that the input ends in, whose closing braces are part of the content only.
-/

namespace Script

/-! ## Tokens -/

/-- What is kept of a token. -/
inductive Piece
  /-- An integer, by its value. -/
  | number (n : Nat)
  | token (t : Token)
  deriving DecidableEq, Repr

namespace Piece

def comma : Piece := .token (.symbol .comma)

def openBrace : Piece := .token (.symbol .openBrace)

def closeBrace : Piece := .token (.symbol .closeBrace)

end Piece

/-- What is kept of a token in front of a token of the given kind. -/
def Token.piece? (t : Token) (follows : TokenKind) : Option Piece :=
  match t with
  | .symbol .openParen | .symbol .closeParen | .symbol .semicolon => none
  | .symbol .comma => if follows = .symbol .closeBrace then none else some .comma
  | .int digits => some (.number (Decimal.toNat digits.toList))
  | t => some (.token t)

/-- What is kept of a list of tokens. -/
def pieces : List Token → List Piece
  | [] => []
  | t :: rest => (t.piece? (headKind rest)).toList ++ pieces rest

/-- The number of open braces behind the tokens, when there are `depth` in front of them. At the end
of an accepted text these are blocks, since a hash has to be closed. -/
def openBraces (depth : Nat) : List Token → Nat
  | [] => depth
  | .symbol .openBrace :: rest => openBraces (depth + 1) rest
  | .symbol .closeBrace :: rest => openBraces (depth - 1) rest
  | _ :: rest => openBraces depth rest

theorem openBraces_cons {t : Token} (opening : t ≠ .symbol .openBrace)
    (closing : t ≠ .symbol .closeBrace) (depth : Nat) (ts : List Token) :
    openBraces depth (t :: ts) = openBraces depth ts := by
  rw [openBraces]
  · exact opening
  · exact closing

/-- Nothing but a comma looks at what follows, and that is no brace here. -/
theorem pieces_append (ts : List Token) {us : List Token}
    (h : headKind us ≠ .symbol .closeBrace) : pieces (ts ++ us) = pieces ts ++ pieces us := by
  induction ts with
  | nil => rfl
  | cons t ts ih =>
    have seen : t.piece? (headKind (ts ++ us)) = t.piece? (headKind ts) := by
      cases ts with
      | nil =>
        unfold Token.piece?
        split <;> simp_all
      | cons _ _ => rfl
    simp only [List.cons_append, pieces, ih, seen, List.append_assoc]

/-! ## Trees -/

/-- The items with commas between them. -/
def separated : List (List Piece) → List Piece
  | [] => []
  | item :: items => item ++ items.flatMap (.comma :: ·)

def inBraces (content : List Piece) : List Piece :=
  .openBrace :: content ++ [.closeBrace]

def inBrackets (content : List Piece) : List Piece :=
  .token (.symbol .openBracket) :: content ++ [.token (.symbol .closeBracket)]

mutual

/-- The content of an expression. -/
def Expr.pieces : Expr → List Piece
  | .name x => [.token (.ident x)]
  | .int n => [.number n.toInt.toNat]
  | .str text => [.token (.str text)]
  | .bool b => [.token (.keyword (if b then .trueWord else .falseWord))]
  | .unary op a => .token (.symbol op.symbol) :: a.pieces
  | .binary op a b => a.pieces ++ .token (.symbol op.symbol) :: b.pieces
  | .cond test yes no =>
    .token (.keyword .ifWord) :: test.pieces ++ inBraces (blockPieces yes) ++
      match no with
      | none => []
      | some no => .token (.keyword .elseWord) :: inBraces (blockPieces no)
  | .fn params body =>
    .token (.keyword .fnWord) :: (paramTokens params).map .token ++ inBraces (blockPieces body)
  | .array es => inBrackets (separated (listPieces es))
  | .index a i => a.pieces ++ inBrackets i.pieces
  | .hash ps => inBraces (separated (pairsPieces ps))
  | .call f args => f.pieces ++ separated (listPieces args)

def Statement.pieces : Statement → List Piece
  | .bind x value =>
    .token (.keyword .letWord) :: .token (.ident x) :: .token (.symbol .assign) :: value.pieces
  | .leave value => .token (.keyword .returnWord) :: value.pieces
  | .expr value => value.pieces

/-- The content of the statements of a block, without its braces. -/
def blockPieces : Block → List Piece
  | [] => []
  | s :: rest => s.pieces ++ blockPieces rest

/-- The contents of the expressions, one by one. -/
def listPieces : List Expr → List (List Piece)
  | [] => []
  | e :: rest => e.pieces :: listPieces rest

/-- The contents of the pairs, one by one. -/
def pairsPieces : List (Expr × Expr) → List (List Piece)
  | [] => []
  | (key, value) :: rest =>
    (key.pieces ++ .token (.symbol .colon) :: value.pieces) :: pairsPieces rest

end

/-! ## What stands between two places -/

/-- Between `ts` and its end `rest` stands the content, up to the closing braces of blocks that are
still open at the end of the input. -/
structure Yields (ts rest : List Token) (content : List Piece) : Prop where
  suffix : rest <:+ ts
  left : ∃ left, (left ≠ 0 → rest = []) ∧
    (∀ depth, openBraces depth ts = openBraces (depth + left) rest) ∧
    pieces ts ++ List.replicate left .closeBrace = content ++ pieces rest

namespace Yields

variable {ts us rest : List Token} {content other : List Piece}

theorem nothing : Yields ts ts [] :=
  ⟨List.suffix_rfl, 0, by simp, fun _ => rfl, by simp⟩

theorem trans (first : Yields ts us content) (second : Yields us rest other) :
    Yields ts rest (content ++ other) := by
  rcases first with ⟨suffix, left, ended, braces, kept⟩
  rcases second with ⟨suffix', left', ended', braces', kept'⟩
  refine ⟨suffix'.trans suffix, left + left', fun some_left => ?_, fun depth => ?_, ?_⟩
  · -- If blocks end with the input in front of `us`, nothing is left behind it either.
    by_cases open_blocks : left' = 0
    · have nothing : us = [] := ended (by omega)
      subst nothing
      exact List.suffix_nil.1 suffix'
    · exact ended' open_blocks
  · rw [braces, braces', Nat.add_assoc]
  · calc pieces ts ++ List.replicate (left + left') Piece.closeBrace
      _ = pieces ts ++ List.replicate left .closeBrace ++ List.replicate left' .closeBrace := by
        rw [← List.replicate_append_replicate, List.append_assoc]
      _ = content ++ (pieces us ++ List.replicate left' .closeBrace) := by
        rw [kept, List.append_assoc]
      _ = content ++ other ++ pieces rest := by rw [kept', List.append_assoc]

/-- A token that is no brace. -/
theorem token {t : Token} (opening : t ≠ .symbol .openBrace) (closing : t ≠ .symbol .closeBrace) :
    Yields (t :: ts) ts (t.piece? (headKind ts)).toList :=
  ⟨List.suffix_cons t ts, 0, by simp, fun depth => openBraces_cons opening closing depth ts,
    by simp [pieces]⟩

/-- A comma in front of what is no brace. -/
theorem comma (h : headKind ts ≠ .symbol .closeBrace) :
    Yields (.symbol .comma :: ts) ts [.comma] := by
  have kept : Yields (.symbol .comma :: ts) ts _ := Yields.token (by simp) (by simp)
  simpa [Token.piece?, h] using kept

/-- A comma that ends a hash. -/
theorem lastComma (h : headKind ts = .symbol .closeBrace) :
    Yields (.symbol .comma :: ts) ts [] := by
  have dropped : Yields (.symbol .comma :: ts) ts _ := Yields.token (by simp) (by simp)
  simpa [Token.piece?, h] using dropped

/-- A content between braces. -/
theorem braced (h : Yields ts (.symbol .closeBrace :: rest) content) :
    Yields (.symbol .openBrace :: ts) rest (inBraces content) := by
  rcases h with ⟨suffix, left, ended, braces, kept⟩
  have closed : left = 0 := Decidable.byContradiction fun inside => nomatch ended inside
  subst closed
  refine ⟨?_, 0, by simp, fun depth => braces (depth + 1), ?_⟩
  · exact ((List.suffix_cons _ rest).trans suffix).trans (List.suffix_cons _ ts)
  · have opening : pieces (.symbol .openBrace :: ts) = .openBrace :: pieces ts := rfl
    have closing : pieces (.symbol .closeBrace :: rest) = .closeBrace :: pieces rest := rfl
    rw [closing, List.replicate_zero, List.append_nil] at kept
    simp [opening, kept, inBraces]

/-- A block that the input ends in. -/
theorem openEnd (h : Yields ts [] content) :
    Yields (.symbol .openBrace :: ts) [] (inBraces content) := by
  rcases h with ⟨suffix, left, -, braces, kept⟩
  refine ⟨List.nil_suffix, left + 1, fun _ => rfl, fun depth => ?_, ?_⟩
  · calc openBraces (depth + 1) ts
      _ = depth + 1 + left := braces (depth + 1)
      _ = depth + (left + 1) := by omega
  · calc .openBrace :: pieces ts ++ List.replicate (left + 1) Piece.closeBrace
      _ = .openBrace :: (pieces ts ++ List.replicate left .closeBrace) ++ [.closeBrace] := by
        simp [List.replicate_succ']
      _ = inBraces content ++ pieces [] := by simp [kept, pieces, inBraces]

end Yields

end Script
