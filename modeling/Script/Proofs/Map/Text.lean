import Script.Proofs.Grammar
import Script.Proofs.Token.Layout

/-!
# The function `map`

The text of a definition of `map` in the language itself, and the statement that it is read as. The
function goes over the array with a function of its own, `iter`, that calls itself with the rest of the
array and the values so far.
-/

namespace Script

open Grammar

/-! ## The definition -/

def mapText : List String :=
  ["let map = fn(arr, f) \x7b",
    "    let iter = fn(arr, accumulated) \x7b",
    "        if (len(arr) == 0) \x7b",
    "            accumulated",
    "        \x7d else \x7b",
    "            iter(rest(arr), push(accumulated, f(first(arr))));",
    "        \x7d",
    "    \x7d;",
    "    iter(arr, []);",
    "\x7d;"]

/-- The lines as one text. -/
def unlines (lines : List String) : String :=
  lines.foldr (fun line rest => line ++ "\n" ++ rest) ""

/-- Is the array empty? -/
def iterTest : Expr :=
  .binary .equal (.call (.name "len") [.name "arr"]) (.int 0)

/-- The call of `f` on the first element. -/
def iterItem : Expr :=
  .call (.name "f") [.call (.name "first") [.name "arr"]]

/-- What has been gathered, with one more value. -/
def iterPush : Expr :=
  .call (.name "push") [.name "accumulated", iterItem]

/-- Going on with the rest of the array. -/
def iterMore : Expr :=
  .call (.name "iter") [.call (.name "rest") [.name "arr"], iterPush]

def iterChoice : Expr :=
  .cond iterTest [.expr (.name "accumulated")] (some [.expr iterMore])

def iterBody : Block :=
  [.expr iterChoice]

def mapBody : Block :=
  [.bind "iter" (.fn ["arr", "accumulated"] iterBody),
    .expr (.call (.name "iter") [.name "arr", .array []])]

def mapDefinition : Statement :=
  .bind "map" (.fn ["arr", "f"] mapBody)

/-! ## Tokens -/

theorem tokens_unlines {lines : List String} (closed : ∀ line ∈ lines, Closed line.toList) :
    tokens (unlines lines).toList = lines.flatMap fun line => tokens line.toList := by
  induction lines with
  | nil => cbv
  | cons line rest ih =>
    rcases List.forall_mem_cons.1 closed with ⟨first, others⟩
    have gap : Gap "\n".toList := by decide
    have cut := gap.tokens_append first (unlines rest).toList
    rw [ih others] at cut
    simpa [unlines] using cut

/-- The tokens, line by line. -/
def mapTokens : List Token :=
  [.keyword .letWord, .ident "map", .symbol .assign, .keyword .fnWord, .symbol .openParen,
      .ident "arr", .symbol .comma, .ident "f", .symbol .closeParen, .symbol .openBrace,
    .keyword .letWord, .ident "iter", .symbol .assign, .keyword .fnWord, .symbol .openParen,
      .ident "arr", .symbol .comma, .ident "accumulated", .symbol .closeParen, .symbol .openBrace,
    .keyword .ifWord, .symbol .openParen, .ident "len", .symbol .openParen, .ident "arr",
      .symbol .closeParen, .symbol .equal, .int "0", .symbol .closeParen, .symbol .openBrace,
    .ident "accumulated",
    .symbol .closeBrace, .keyword .elseWord, .symbol .openBrace,
    .ident "iter", .symbol .openParen, .ident "rest", .symbol .openParen, .ident "arr",
      .symbol .closeParen, .symbol .comma, .ident "push", .symbol .openParen, .ident "accumulated",
      .symbol .comma, .ident "f", .symbol .openParen, .ident "first", .symbol .openParen,
      .ident "arr", .symbol .closeParen, .symbol .closeParen, .symbol .closeParen,
      .symbol .closeParen, .symbol .semicolon,
    .symbol .closeBrace,
    .symbol .closeBrace, .symbol .semicolon,
    .ident "iter", .symbol .openParen, .ident "arr", .symbol .comma, .symbol .openBracket,
      .symbol .closeBracket, .symbol .closeParen, .symbol .semicolon,
    .symbol .closeBrace, .symbol .semicolon]

theorem tokens_mapText : tokens (unlines mapText).toList = mapTokens := by
  have closed : ∀ line ∈ mapText, Closed line.toList := by
    unfold Closed
    decide
  have lines : (mapText.flatMap fun line => tokens line.toList) = mapTokens := by decide +kernel
  rw [tokens_unlines closed, lines]

/-! ## The derivation -/

section

variable {ts us rest : List Token} {a b : Expr} {x : String} {args : List Expr}

theorem derives_name : Derives (.expr .equality) (.ident x :: rest) (.name x) rest :=
  Derives.loosen (by decide) .name

theorem derives_call (elements : Derives .elements us args (.symbol .closeParen :: rest)) :
    Derives (.expr .equality) (.ident x :: .symbol .openParen :: us) (.call (.name x) args) rest :=
  Derives.loosen (m := .suffix) (by decide) (.call (.tighter .name) elements)

theorem derives_one (only : Derives (.expr .equality) ts a rest) : Derives .elements ts [a] rest :=
  .elements only .noMore

theorem derives_two (first : Derives (.expr .equality) ts a (.symbol .comma :: us))
    (second : Derives (.expr .equality) us b rest) : Derives .elements ts [a, b] rest :=
  .elements first (.more second .noMore)

/-- A last statement in a block may lack its semicolon. -/
theorem derives_last (only : Derives (.expr .equality) ts a (.symbol .closeBrace :: rest)) :
    Derives .statements ts [.expr a] (.symbol .closeBrace :: rest) :=
  .statements (.bare (.expr only) (by simp [goesOn, headKind, Token.kind])) .noStatements

theorem derives_fn {y : String} {body : Block}
    (inside : Derives .statements ts body (.symbol .closeBrace :: rest)) :
    Derives (.expr .equality)
      (.keyword .fnWord :: .symbol .openParen :: .ident x :: .symbol .comma :: .ident y ::
        .symbol .closeParen :: .symbol .openBrace :: ts) (.fn [x, y] body) rest :=
  Derives.loosen (m := .atom) (by decide) (@Derives.fn [x, y] _ _ _ (.block inside))

theorem derives_iterTest :
    Derives (.expr .equality)
      (.ident "len" :: .symbol .openParen :: .ident "arr" :: .symbol .closeParen ::
        .symbol .equal :: .int "0" :: rest) iterTest rest := by
  have zero : Derives (.expr .comparison) (.int "0" :: rest) (.int 0) rest :=
    Derives.loosen (m := .atom) (by decide) (.int (by decide))
  exact @Derives.binary .equal _ _ _ _ _ (derives_call (derives_one derives_name)) zero

theorem derives_iterMore :
    Derives (.expr .equality)
      (.ident "iter" :: .symbol .openParen :: .ident "rest" :: .symbol .openParen :: .ident "arr" ::
        .symbol .closeParen :: .symbol .comma :: .ident "push" :: .symbol .openParen ::
        .ident "accumulated" :: .symbol .comma :: .ident "f" :: .symbol .openParen ::
        .ident "first" :: .symbol .openParen :: .ident "arr" :: .symbol .closeParen ::
        .symbol .closeParen :: .symbol .closeParen :: .symbol .closeParen :: rest) iterMore rest := by
  have item {rest : List Token} :
      Derives (.expr .equality)
        (.ident "f" :: .symbol .openParen :: .ident "first" :: .symbol .openParen ::
          .ident "arr" :: .symbol .closeParen :: .symbol .closeParen :: rest) iterItem rest :=
    derives_call (derives_one (derives_call (derives_one derives_name)))
  exact derives_call (derives_two (derives_call (derives_one derives_name))
    (derives_call (derives_two derives_name item)))

end

theorem derives_iterBody {rest : List Token} :
    Derives .statements
      (.keyword .ifWord :: .symbol .openParen :: .ident "len" :: .symbol .openParen ::
        .ident "arr" :: .symbol .closeParen :: .symbol .equal :: .int "0" :: .symbol .closeParen ::
        .symbol .openBrace :: .ident "accumulated" :: .symbol .closeBrace :: .keyword .elseWord ::
        .symbol .openBrace :: .ident "iter" :: .symbol .openParen :: .ident "rest" ::
        .symbol .openParen :: .ident "arr" :: .symbol .closeParen :: .symbol .comma ::
        .ident "push" :: .symbol .openParen :: .ident "accumulated" :: .symbol .comma ::
        .ident "f" :: .symbol .openParen :: .ident "first" :: .symbol .openParen ::
        .ident "arr" :: .symbol .closeParen :: .symbol .closeParen :: .symbol .closeParen ::
        .symbol .closeParen :: .symbol .semicolon :: .symbol .closeBrace :: .symbol .closeBrace ::
        rest) iterBody (.symbol .closeBrace :: rest) := by
  refine derives_last (Derives.loosen (m := .atom) (by decide) ?_)
  refine .condElse derives_iterTest (.block (derives_last derives_name)) (.block ?_)
  exact .statements (.ended (.expr derives_iterMore)) .noStatements

theorem derives_mapTokens : Derives .statements mapTokens [mapDefinition] [] := by
  have none {rest : List Token} : Derives (.expr .equality)
      (.symbol .openBracket :: .symbol .closeBracket :: rest) (.array []) rest :=
    Derives.loosen (m := .atom) (by decide) (.array .noElements)
  refine .statements (.ended (.bind (derives_fn ?_))) .noStatements
  refine .statements (.ended (.bind (derives_fn derives_iterBody))) ?_
  exact .statements (.ended (.expr (derives_call (derives_two derives_name none)))) .noStatements

/-- The text is read as the definition. -/
theorem parse_mapText : Program.parse (unlines mapText) = .ok [mapDefinition] := by
  refine Program.parse_of_derives ?_
  rw [tokens_mapText]
  exact derives_mapTokens

end Script
