import Script.Text.Decimal
import Script.Token.Basic
import Script.Program.Precedence

/-!
# The grammar of programs

What a token list means, without saying how it is read. `Derives phrase ts tree rest` says that `ts`
starts with a phrase of the given sort, that the phrase has the given tree, and that `rest` is what
stands behind it.

The rest is part of the relation because two rules look at it: a statement may lack its semicolon only
in front of a token that could not go on with it, and a block may lack its closing brace only at the
end of the input.
-/

namespace Script

/-! ## Spelling -/

def UnaryOp.symbol : UnaryOp → Symbol
  | .negate => .minus
  | .not => .bang

def BinaryOp.symbol : BinaryOp → Symbol
  | .add => .plus
  | .sub => .minus
  | .mul => .star
  | .div => .slash
  | .less => .less
  | .greater => .greater
  | .equal => .equal
  | .notEqual => .notEqual

/-- The parameters of a function, with commas between them. -/
def paramTokens : List String → List Token
  | [] => []
  | x :: xs => .ident x :: xs.flatMap fun y => [.symbol .comma, .ident y]

namespace Grammar

/-! ## Levels -/

/-- The levels of expressions, loosest first. -/
inductive Level
  | equality
  | comparison
  | sum
  | product
  | unary
  | suffix
  | atom
  deriving DecidableEq, Repr

/-- The level one step tighter. -/
def Level.next : Level → Level
  | .equality => .comparison
  | .comparison => .sum
  | .sum => .product
  | .product => .unary
  | .unary => .suffix
  | .suffix | .atom => .atom

/-- The place of a level in the order. -/
def Level.rank : Level → Nat
  | .equality => 0
  | .comparison => 1
  | .sum => 2
  | .product => 3
  | .unary => 4
  | .suffix => 5
  | .atom => 6

/-- The level at which an operator stands between its operands. -/
def level : BinaryOp → Level
  | .equal | .notEqual => .equality
  | .less | .greater => .comparison
  | .add | .sub => .sum
  | .mul | .div => .product

/-! ## Phrases -/

inductive Phrase
  /-- An expression of a level or a tighter one. -/
  | expr (level : Level)
  /-- Any number of expressions with commas between them. -/
  | elements
  /-- Any number of expressions, each behind a comma. -/
  | moreElements
  /-- The pairs of a hash, between its braces. -/
  | pairs
  /-- A block with its braces. -/
  | block
  /-- A statement up to the place of its semicolon. -/
  | sentence
  | statement
  | statements

/-- The trees of a sort of phrase. -/
abbrev Phrase.Tree : Phrase → Type
  | .expr _ => Expr
  | .elements | .moreElements => List Expr
  | .pairs => List (Expr × Expr)
  | .block | .statements => List Statement
  | .sentence | .statement => Statement

/-- The symbols that a statement without a semicolon cannot stand in front of. -/
def goesOn : List Symbol :=
  [.plus, .minus, .star, .slash, .less, .greater, .equal, .notEqual, .openParen, .openBracket,
    .semicolon]

/-! ## Rules -/

inductive Derives : (phrase : Phrase) → List Token → phrase.Tree → List Token → Prop
  -- Operators.
  | tighter {l : Level} {ts rest : List Token} {e : Expr} :
      Derives (.expr l.next) ts e rest → Derives (.expr l) ts e rest
  | binary {op : BinaryOp} {ts us rest : List Token} {a b : Expr} :
      Derives (.expr (level op)) ts a (.symbol op.symbol :: us) →
      Derives (.expr (level op).next) us b rest →
      Derives (.expr (level op)) ts (.binary op a b) rest
  | unary {op : UnaryOp} {ts rest : List Token} {a : Expr} :
      Derives (.expr .unary) ts a rest →
      Derives (.expr .unary) (.symbol op.symbol :: ts) (.unary op a) rest
  | call {ts us rest : List Token} {f : Expr} {args : List Expr} :
      Derives (.expr .suffix) ts f (.symbol .openParen :: us) →
      Derives .elements us args (.symbol .closeParen :: rest) →
      Derives (.expr .suffix) ts (.call f args) rest
  | index {ts us rest : List Token} {a i : Expr} :
      Derives (.expr .suffix) ts a (.symbol .openBracket :: us) →
      Derives (.expr .equality) us i (.symbol .closeBracket :: rest) →
      Derives (.expr .suffix) ts (.index a i) rest
  -- Atoms.
  | name {x : String} {rest : List Token} :
      Derives (.expr .atom) (.ident x :: rest) (.name x) rest
  | int {digits : String} {n : Int64} {rest : List Token} :
      n.toInt = Decimal.toNat digits.toList →
      Derives (.expr .atom) (.int digits :: rest) (.int n) rest
  | str {text : String} {rest : List Token} :
      Derives (.expr .atom) (.str text :: rest) (.str text) rest
  | true {rest : List Token} :
      Derives (.expr .atom) (.keyword .trueWord :: rest) (.bool true) rest
  | false {rest : List Token} :
      Derives (.expr .atom) (.keyword .falseWord :: rest) (.bool false) rest
  | group {ts rest : List Token} {e : Expr} :
      Derives (.expr .equality) ts e (.symbol .closeParen :: rest) →
      Derives (.expr .atom) (.symbol .openParen :: ts) e rest
  | cond {ts us rest : List Token} {test : Expr} {yes : Block} :
      Derives (.expr .equality) ts test (.symbol .closeParen :: us) →
      Derives .block us yes rest →
      Derives (.expr .atom) (.keyword .ifWord :: .symbol .openParen :: ts) (.cond test yes none)
        rest
  | condElse {ts us vs rest : List Token} {test : Expr} {yes no : Block} :
      Derives (.expr .equality) ts test (.symbol .closeParen :: us) →
      Derives .block us yes (.keyword .elseWord :: vs) →
      Derives .block vs no rest →
      Derives (.expr .atom) (.keyword .ifWord :: .symbol .openParen :: ts)
        (.cond test yes (some no)) rest
  | fn {params : List String} {ts rest : List Token} {body : Block} :
      Derives .block ts body rest →
      Derives (.expr .atom)
        (.keyword .fnWord :: .symbol .openParen :: (paramTokens params ++ .symbol .closeParen :: ts))
        (.fn params body) rest
  | array {ts rest : List Token} {es : List Expr} :
      Derives .elements ts es (.symbol .closeBracket :: rest) →
      Derives (.expr .atom) (.symbol .openBracket :: ts) (.array es) rest
  | hash {ts rest : List Token} {ps : List (Expr × Expr)} :
      Derives .pairs ts ps (.symbol .closeBrace :: rest) →
      Derives (.expr .atom) (.symbol .openBrace :: ts) (.hash ps) rest
  -- Lists.
  | noElements {ts : List Token} : Derives .elements ts [] ts
  | elements {ts us rest : List Token} {e : Expr} {es : List Expr} :
      Derives (.expr .equality) ts e us → Derives .moreElements us es rest →
      Derives .elements ts (e :: es) rest
  | noMore {ts : List Token} : Derives .moreElements ts [] ts
  | more {ts us rest : List Token} {e : Expr} {es : List Expr} :
      Derives (.expr .equality) ts e us → Derives .moreElements us es rest →
      Derives .moreElements (.symbol .comma :: ts) (e :: es) rest
  | noPairs {ts : List Token} : Derives .pairs ts [] ts
  | lastPair {ts us rest : List Token} {key value : Expr} :
      Derives (.expr .equality) ts key (.symbol .colon :: us) →
      Derives (.expr .equality) us value rest →
      Derives .pairs ts [(key, value)] rest
  | pairs {ts us vs rest : List Token} {key value : Expr} {ps : List (Expr × Expr)} :
      Derives (.expr .equality) ts key (.symbol .colon :: us) →
      Derives (.expr .equality) us value (.symbol .comma :: vs) →
      Derives .pairs vs ps rest →
      Derives .pairs ts ((key, value) :: ps) rest
  -- Statements.
  | block {ts rest : List Token} {body : Block} :
      Derives .statements ts body (.symbol .closeBrace :: rest) →
      Derives .block (.symbol .openBrace :: ts) body rest
  | openBlock {ts : List Token} {body : Block} :
      Derives .statements ts body [] → Derives .block (.symbol .openBrace :: ts) body []
  | bind {x : String} {ts rest : List Token} {value : Expr} :
      Derives (.expr .equality) ts value rest →
      Derives .sentence (.keyword .letWord :: .ident x :: .symbol .assign :: ts) (.bind x value) rest
  | leave {ts rest : List Token} {value : Expr} :
      Derives (.expr .equality) ts value rest →
      Derives .sentence (.keyword .returnWord :: ts) (.leave value) rest
  | expr {ts rest : List Token} {value : Expr} :
      Derives (.expr .equality) ts value rest → Derives .sentence ts (.expr value) rest
  | ended {ts rest : List Token} {s : Statement} :
      Derives .sentence ts s (.symbol .semicolon :: rest) → Derives .statement ts s rest
  | bare {ts rest : List Token} {s : Statement} :
      Derives .sentence ts s rest → (∀ symbol ∈ goesOn, headKind rest ≠ .symbol symbol) →
      Derives .statement ts s rest
  | noStatements {ts : List Token} : Derives .statements ts [] ts
  | statements {ts us rest : List Token} {s : Statement} {ss : List Statement} :
      Derives .statement ts s us → Derives .statements us ss rest →
      Derives .statements ts (s :: ss) rest

end Grammar
end Script
