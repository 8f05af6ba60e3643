import Script.Proofs.Grammar.Basic

/-!
# First tokens

What a phrase starts with. No phrase starts with a closing bracket, so the end of a list or of a
block cannot be taken for one more item.
-/

namespace Script

/-- The kinds of tokens that an expression starts with. -/
def TokenKind.startsExpr : TokenKind → Bool
  | .ident | .int | .str => true
  | .symbol s => s ∈ [.bang, .minus, .openParen, .openBracket, .openBrace]
  | .keyword k => k ∈ [.fnWord, .trueWord, .falseWord, .ifWord]
  | .illegal | .eof => false

/-- The kinds of tokens that a statement starts with. -/
def TokenKind.startsStatement (kind : TokenKind) : Bool :=
  kind.startsExpr || kind = .keyword .letWord || kind = .keyword .returnWord

namespace Grammar

/-- What is known of the first token of a phrase. -/
def Starts : Phrase → List Token → List Token → Prop
  | .expr _, ts, _ => (headKind ts).startsExpr
  | .sentence, ts, _ | .statement, ts, _ => (headKind ts).startsStatement
  | .moreElements, ts, rest => ts = rest ∨ headKind ts = .symbol .comma
  | .statements, ts, rest => ts = rest ∨ (headKind ts).startsStatement
  | .elements, _, _ | .pairs, _, _ | .block, _, _ => True

theorem startsStatement_of_startsExpr {kind : TokenKind} (h : kind.startsExpr) :
    kind.startsStatement := by
  simp [TokenKind.startsStatement, h]

theorem Derives.starts {phrase : Phrase} {ts rest : List Token} {tree : phrase.Tree}
    (h : Derives phrase ts tree rest) : Starts phrase ts rest := by
  induction h with
  | tighter _ ih => exact ih
  -- What an operator, a call or an index stands behind comes first.
  | binary _ _ ih _ => exact ih
  | @unary op _ _ _ _ _ => cases op <;> rfl
  | call _ _ ih _ => exact ih
  | index _ _ ih _ => exact ih
  | name | int | str | true | false | group | cond | condElse | fn | array | hash => rfl
  | noElements | elements | noPairs | lastPair | pairs | block | openBlock => trivial
  | noMore => exact .inl rfl
  | more => exact .inr rfl
  | bind | leave => rfl
  | expr _ ih => exact startsStatement_of_startsExpr ih
  | ended _ ih => exact ih
  | bare _ _ ih => exact ih
  | noStatements => exact .inl rfl
  | statements _ _ ih _ => exact .inr ih

theorem ne_symbol_of_startsStatement {kind : TokenKind} {s : Symbol} (h : kind.startsStatement)
    (closing : s ∈ [Symbol.closeParen, .closeBracket, .closeBrace]) : kind ≠ .symbol s := by
  intro same
  rw [same] at h
  simp only [List.mem_cons, List.not_mem_nil, or_false] at closing
  rcases closing with rfl | rfl | rfl <;> cases h

theorem ne_else_of_startsStatement {kind : TokenKind} (h : kind.startsStatement) :
    kind ≠ .keyword .elseWord := by
  intro same
  rw [same] at h
  cases h

theorem ne_eof_of_startsStatement {kind : TokenKind} (h : kind.startsStatement) : kind ≠ .eof := by
  intro same
  rw [same] at h
  cases h

end Grammar

end Script
