import Script.Program.Text
import Script.Proofs.Canonical.WellFormed
import Script.Proofs.Grammar.First
import Script.Proofs.Grammar.Strength
import Script.Proofs.Token.Spells

/-!
# Texts of phrases

`Writes phrase s tree`: the text `s` is a phrase of the given sort with the given tree, whatever
stands behind it. The rules of the grammar become rules about texts, one for each form that the
canonical text has. They say nothing about canonical texts yet: the parts may be any texts.
-/

namespace Script

open Grammar

/-- Whatever follows, the text is a phrase with the tree. -/
def Writes (phrase : Phrase) (s : List Char) (tree : phrase.Tree) : Prop :=
  ∃ ts, Spells s ts ∧ ∀ rest, Derives phrase (ts ++ rest) tree rest

/-! ## Words -/

theorem Spells.keyword (k : Keyword) : Spells k.text.toList [.keyword k] := by
  have nonempty : k.text.toList ≠ [] := by
    cases k <;> decide
  have letters : k.text.toList.all isWordChar = true := by
    cases k <;> rfl
  have spelled := Spells.word nonempty (List.all_eq_true.1 letters)
  rw [String.ofList_toList, Token.ofWord, Keyword.ofWord?_text] at spelled
  exact spelled

theorem Spells.name {x : String} (h : isName x = true) : Spells x.toList [.ident x] := by
  simp only [isName, Bool.and_eq_true, decide_eq_true_eq, List.all_eq_true] at h
  rcases h with ⟨⟨nonempty, letters⟩, free⟩
  have spelled := Spells.word nonempty letters
  rw [String.ofList_toList, Token.ofWord, free] at spelled
  exact spelled

theorem Spells.unaryOp (op : UnaryOp) : Spells op.text.toList [.symbol op.symbol] := by
  cases op with
  | negate => exact Spells.symbol _ _ (by decide) Spells.nil
  | not =>
    have stays : "!".toList.dropWhile isBlank = ['!'] := rfl
    have first : lexeme '!' [] = (.symbol .bang, []) := rfl
    refine ⟨rfl, ?_⟩
    rw [UnaryOp.text, tokens_of_lexeme stays, first, tokens_of_blank rfl]
    rfl

theorem Spells.binaryOp (op : BinaryOp) : Spells op.text.toList [.symbol op.symbol] := by
  cases op with
  | equal =>
    have stays : "==".toList.dropWhile isBlank = ['=', '='] := rfl
    refine ⟨rfl, ?_⟩
    rw [BinaryOp.text, tokens_of_lexeme stays, lexeme_equal, tokens_of_blank rfl]
    rfl
  | notEqual =>
    have stays : "!=".toList.dropWhile isBlank = ['!', '='] := rfl
    refine ⟨rfl, ?_⟩
    rw [BinaryOp.text, tokens_of_lexeme stays, lexeme_notEqual, tokens_of_blank rfl]
    rfl
  | _ => exact Spells.symbol _ _ (by decide) Spells.nil

theorem Spells.assign : Spells ['='] [.symbol .assign] := by
  have stays : ['='].dropWhile isBlank = ['='] := rfl
  have first : lexeme '=' [] = (.symbol .assign, []) := rfl
  refine ⟨rfl, ?_⟩
  rw [tokens_of_lexeme stays, first, tokens_of_blank rfl]

namespace Writes

variable {s t : List Char}

/-! ## Operators -/

theorem loosen {l m : Level} {e : Expr} (h : l ≤ m) (writes : Writes (.expr m) s e) :
    Writes (.expr l) s e := by
  rcases writes with ⟨ts, spells, derives⟩
  exact ⟨ts, spells, fun rest => (derives rest).loosen h⟩

/-- No expression starts with an equals sign, so an exclamation mark in front of it stays alone. -/
theorem head?_ne {l : Level} {e : Expr} (h : Writes (.expr l) s e) : s.head? ≠ some '=' := by
  intro equals
  rcases List.head?_eq_some_iff.1 equals with ⟨t, rfl⟩
  rcases h with ⟨ts, ⟨-, spelled⟩, derives⟩
  have starts := (derives []).starts
  have stays : ('=' :: t).dropWhile isBlank = '=' :: t := rfl
  rw [List.append_nil, ← spelled, tokens_of_lexeme stays] at starts
  cases t with
  | nil => cases starts
  | cons d t =>
    -- The text would start with `==` or `=`, and neither starts an expression.
    by_cases double : d = '='
    · subst double
      cases starts
    · have single : lexeme '=' (d :: t) = (.symbol .assign, d :: t) := by
        rw [lexeme_of_single rfl rfl (by decide) (by simpa using double)]
        rfl
      rw [single] at starts
      cases starts

theorem group {e : Expr} (h : Writes (.expr .equality) s e) :
    Writes (.expr .atom) (parenthesised s) e := by
  rcases h with ⟨ts, spells, derives⟩
  have whole := spells.enclosed '(' ')' .openParen .closeParen (by decide) (by decide)
  refine ⟨_, whole, fun rest => ?_⟩
  simpa using Derives.group (derives (.symbol .closeParen :: rest))

theorem unary {op : UnaryOp} {a : Expr} (h : Writes (.expr .unary) s a) :
    Writes (.expr .unary) (op.text.toList ++ s) (.unary op a) := by
  have apart : Apart op.text.toList s := by
    cases op with
    | negate => exact Apart.of_last (joins_of_isSeparator_left (by decide)) [] s
    | not =>
      intro c hc d hd
      have last : c = '!' := by simpa [UnaryOp.text, eq_comm] using hc
      -- An exclamation mark joins with an equals sign only.
      have other : d ≠ '=' := by
        rintro rfl
        exact h.head?_ne hd
      have bang : isWordChar '!' = false ∧ ('!').isDigit = false := by decide
      simp [last, joins, other, bang]
  rcases h with ⟨ts, spells, derives⟩
  exact ⟨_, (Spells.unaryOp op).append spells apart, fun rest => .unary (derives rest)⟩

theorem binary {op : BinaryOp} {a b : Expr} (first : Writes (.expr .suffix) s a)
    (second : Writes (.expr .suffix) t b) :
    Writes (.expr .equality) (s ++ ' ' :: op.text.toList ++ ' ' :: t) (.binary op a b) := by
  -- Both operands are tighter than any operator, which fits to either side of this one.
  have left : level op ≤ .suffix := by
    cases op <;> decide
  have right : (level op).next ≤ .suffix := by
    cases op <;> decide
  have loosest : .equality ≤ level op := by
    cases op <;> decide
  rcases first with ⟨ts, spells, derives⟩
  rcases second with ⟨us, spells', derives'⟩
  have operand := (Spells.binaryOp op).before (by decide) spells'.space
  have whole := spells.before (by decide) operand.space
  refine ⟨_, by simpa using whole, fun rest => ?_⟩
  have first := (derives (.symbol op.symbol :: (us ++ rest))).loosen left
  have second := (derives' rest).loosen right
  simpa using (Derives.binary first second).loosen loosest

theorem index {a i : Expr} (collection : Writes (.expr .suffix) s a)
    (position : Writes (.expr .equality) t i) :
    Writes (.expr .suffix) (s ++ '[' :: t ++ [']']) (.index a i) := by
  rcases collection with ⟨ts, spells, derives⟩
  rcases position with ⟨us, spells', derives'⟩
  have inside := spells'.enclosed '[' ']' .openBracket .closeBracket (by decide) (by decide)
  have whole := spells.before (by decide) inside
  refine ⟨_, by simpa using whole, fun rest => ?_⟩
  have inside := derives' (.symbol .closeBracket :: rest)
  simpa using Derives.index (derives (.symbol .openBracket :: (us ++ _))) inside

theorem call {f : Expr} {args : List Expr} (callee : Writes (.expr .suffix) s f)
    (given : Writes .elements t args) :
    Writes (.expr .suffix) (s ++ parenthesised t) (.call f args) := by
  rcases callee with ⟨ts, spells, derives⟩
  rcases given with ⟨us, spells', derives'⟩
  have inside := spells'.enclosed '(' ')' .openParen .closeParen (by decide) (by decide)
  have whole := spells.before (by decide) inside
  refine ⟨_, by simpa [parenthesised] using whole, fun rest => ?_⟩
  have inside := derives' (.symbol .closeParen :: rest)
  simpa using Derives.call (derives (.symbol .openParen :: (us ++ _))) inside

/-! ## Atoms -/

theorem name {x : String} (h : isName x = true) : Writes (.expr .atom) x.toList (.name x) :=
  ⟨_, Spells.name h, fun _ => .name⟩

theorem int {n : Int64} (h : 0 ≤ n) : Writes (.expr .atom) (Integer.text n) (.int n) := by
  -- Without a sign the text of an integer is its digits.
  have nonneg : 0 ≤ n.toInt := Int64.le_iff_toInt_le.1 h
  have digits : Integer.text n = Decimal.ofNat n.toInt.natAbs := by
    rw [Integer.text, Decimal.ofInt, if_neg (Int.not_lt.2 nonneg)]
  have value : n.toInt = Decimal.toNat (String.ofList (Decimal.ofNat n.toInt.natAbs)).toList := by
    rw [String.toList_ofList, Decimal.toNat_ofNat, Int.natAbs_of_nonneg nonneg]
  rw [digits]
  exact ⟨_, Spells.digits _, fun _ => .int value⟩

theorem str {text : String} (noQuote : '"' ∉ text.toList) :
    Writes (.expr .atom) ('"' :: text.toList ++ ['"']) (.str text) := by
  have spelled := Spells.str noQuote
  rw [String.ofList_toList] at spelled
  exact ⟨_, spelled, fun _ => .str⟩

theorem bool (b : Bool) : Writes (.expr .atom) (toString b).toList (.bool b) := by
  cases b with
  | false => exact ⟨_, Spells.keyword .falseWord, fun _ => .false⟩
  | true => exact ⟨_, Spells.keyword .trueWord, fun _ => .true⟩

theorem array {es : List Expr} (h : Writes .elements s es) :
    Writes (.expr .atom) ('[' :: s ++ [']']) (.array es) := by
  rcases h with ⟨ts, spells, derives⟩
  have whole := spells.enclosed '[' ']' .openBracket .closeBracket (by decide) (by decide)
  refine ⟨_, whole, fun rest => ?_⟩
  simpa using Derives.array (derives (.symbol .closeBracket :: rest))

theorem hash {ps : List (Expr × Expr)} (h : Writes .pairs s ps) :
    Writes (.expr .atom) ('\x7b' :: s ++ ['\x7d']) (.hash ps) := by
  rcases h with ⟨ts, spells, derives⟩
  have whole := spells.enclosed '\x7b' '\x7d' .openBrace .closeBrace (by decide) (by decide)
  refine ⟨_, whole, fun rest => ?_⟩
  simpa using Derives.hash (derives (.symbol .closeBrace :: rest))

theorem cond {test : Expr} {yes : Block}
    (tested : Writes (.expr .equality) s test) (branch : Writes .block t yes) :
    Writes (.expr .atom) ("if ".toList ++ parenthesised s ++ ' ' :: t) (.cond test yes none) := by
  rcases tested with ⟨ts, spells, derives⟩
  rcases branch with ⟨us, spells', derives'⟩
  have closing := spells.before (by decide) (Spells.symbol ')' .closeParen (by decide) spells'.space)
  have opening := Spells.symbol '(' .openParen (by decide) closing
  have whole := (Spells.keyword .ifWord).before (by decide) opening.space
  refine ⟨_, by simpa [parenthesised, Keyword.text] using whole, fun rest => ?_⟩
  simpa using Derives.cond (derives (.symbol .closeParen :: (us ++ rest))) (derives' rest)

theorem condElse {u : List Char} {test : Expr} {yes no : Block}
    (tested : Writes (.expr .equality) s test) (branch : Writes .block t yes)
    (other : Writes .block u no) :
    Writes (.expr .atom) ("if ".toList ++ parenthesised s ++ ' ' :: t ++ " else ".toList ++ u)
      (.cond test yes (some no)) := by
  rcases tested with ⟨ts, spells, derives⟩
  rcases branch with ⟨us, spells', derives'⟩
  rcases other with ⟨vs, spells'', derives''⟩
  have second := (Spells.keyword .elseWord).before (by decide) spells''.space
  have branches := spells'.before (by decide) second.space
  have closing := spells.before (by decide) (Spells.symbol ')' .closeParen (by decide) branches.space)
  have opening := Spells.symbol '(' .openParen (by decide) closing
  have whole := (Spells.keyword .ifWord).before (by decide) opening.space
  refine ⟨_, by simpa [parenthesised, Keyword.text] using whole, fun rest => ?_⟩
  have first := derives' (.keyword .elseWord :: (vs ++ rest))
  simpa using Derives.condElse (derives (.symbol .closeParen :: (us ++ _))) first (derives'' rest)

theorem fn {params : List String} {body : Block} (names : Spells s (paramTokens params))
    (h : Writes .block t body) :
    Writes (.expr .atom) ("fn".toList ++ parenthesised s ++ ' ' :: t) (.fn params body) := by
  rcases h with ⟨ts, spells, derives⟩
  have closing := names.before (by decide) (Spells.symbol ')' .closeParen (by decide) spells.space)
  have opening := Spells.symbol '(' .openParen (by decide) closing
  have whole := (Spells.keyword .fnWord).before (by decide) opening
  refine ⟨_, by simpa [parenthesised, Keyword.text] using whole, fun rest => ?_⟩
  simpa using Derives.fn (derives rest)

end Writes

/-! ## Lists -/

/-- The items, each behind a comma and a space. -/
def behindCommas (items : List (List Char)) : List Char :=
  items.flatMap fun item => ',' :: ' ' :: item

theorem commaSeparated_cons (item : List Char) (items : List (List Char)) :
    commaSeparated (item :: items) = item ++ behindCommas items := by
  induction items generalizing item with
  | nil => simp [commaSeparated, behindCommas, List.intercalate_singleton]
  | cons other items ih =>
    have step : commaSeparated (item :: other :: items) =
        item ++ [',', ' '] ++ commaSeparated (other :: items) := List.intercalate_cons_cons
    rw [step, ih]
    simp [behindCommas]

/-- One item and the ones behind it. -/
theorem Spells.item {item : List Char} {items : List (List Char)} {ts us : List Token}
    (first : Spells item ts) (others : Spells (behindCommas items) us) :
    Spells (item ++ behindCommas items) (ts ++ us) := by
  refine first.append others ?_
  cases items with
  | nil => exact Apart.nil_right item
  | cons other items => exact Apart.of_head (joins_of_isSeparator_right (by decide)) item _

theorem Spells.moreItems {item : List Char} {items : List (List Char)} {ts us : List Token}
    (first : Spells item ts) (others : Spells (behindCommas items) us) :
    Spells (behindCommas (item :: items)) (.symbol .comma :: (ts ++ us)) :=
  Spells.symbol ',' .comma (by decide) (first.item others).space

theorem Spells.moreParams {params : List String} (h : params.all isName = true) :
    Spells (behindCommas (params.map String.toList))
      (params.flatMap fun y => [.symbol .comma, .ident y]) := by
  induction params with
  | nil => exact Spells.nil
  | cons x xs ih =>
    simp only [List.all_cons, Bool.and_eq_true] at h
    exact (Spells.name h.1).moreItems (ih h.2)

theorem Spells.params {params : List String} (h : params.all isName = true) :
    Spells (commaSeparated (params.map String.toList)) (paramTokens params) := by
  cases params with
  | nil => exact Spells.nil
  | cons x xs =>
    simp only [List.all_cons, Bool.and_eq_true] at h
    rw [List.map_cons, commaSeparated_cons]
    exact (Spells.name h.1).item (Spells.moreParams h.2)

namespace Writes

variable {s t : List Char}

section

variable {α : Type} {items : List α} {text text' : α → List Char}

theorem moreElements {tree : α → Expr}
    (h : ∀ x ∈ items, Writes (.expr .equality) (text x) (tree x)) :
    Writes .moreElements (behindCommas (items.map text)) (items.map tree) := by
  induction items with
  | nil => exact ⟨[], Spells.nil, fun _ => .noMore⟩
  | cons x items ih =>
    rcases h x List.mem_cons_self with ⟨ts, spells, derives⟩
    rcases ih fun other here => h other (List.mem_cons_of_mem x here) with ⟨us, spells', derives'⟩
    refine ⟨_, spells.moreItems spells', fun rest => ?_⟩
    simpa using Derives.more (derives (us ++ rest)) (derives' rest)

theorem elements {tree : α → Expr}
    (h : ∀ x ∈ items, Writes (.expr .equality) (text x) (tree x)) :
    Writes .elements (commaSeparated (items.map text)) (items.map tree) := by
  cases items with
  | nil => exact ⟨[], Spells.nil, fun _ => .noElements⟩
  | cons x items =>
    rcases h x List.mem_cons_self with ⟨ts, spells, derives⟩
    rcases moreElements fun other here => h other (List.mem_cons_of_mem x here) with
      ⟨us, spells', derives'⟩
    rw [List.map_cons, commaSeparated_cons]
    refine ⟨_, spells.item spells', fun rest => ?_⟩
    simpa using Derives.elements (derives (us ++ rest)) (derives' rest)

/-- The key and the value of a pair. -/
theorem pairText {key value : Expr} (first : Writes (.expr .equality) s key)
    (second : Writes (.expr .equality) t value) :
    ∃ ts us, Spells (s ++ ':' :: ' ' :: t) (ts ++ .symbol .colon :: us) ∧
      (∀ rest, Derives (.expr .equality) (ts ++ rest) key rest) ∧
      ∀ rest, Derives (.expr .equality) (us ++ rest) value rest := by
  rcases first with ⟨ts, spells, derives⟩
  rcases second with ⟨us, spells', derives'⟩
  have colon := Spells.symbol ':' .colon (by decide) spells'.space
  exact ⟨ts, us, spells.before (by decide) colon, derives, derives'⟩

theorem pairs {key value : α → Expr}
    (h : ∀ x ∈ items, Writes (.expr .equality) (text x) (key x) ∧
      Writes (.expr .equality) (text' x) (value x)) :
    Writes .pairs (commaSeparated (items.map fun x => text x ++ ':' :: ' ' :: text' x))
      (items.map fun x => (key x, value x)) := by
  induction items with
  | nil => exact ⟨[], Spells.nil, fun _ => .noPairs⟩
  | cons x items ih =>
    rcases h x List.mem_cons_self with ⟨first, second⟩
    rcases pairText first second with ⟨ts, us, spells, derives, derives'⟩
    cases items with
    | nil =>
      refine ⟨ts ++ .symbol .colon :: us, by simpa [commaSeparated] using spells, fun rest => ?_⟩
      simpa using Derives.lastPair (derives (.symbol .colon :: (us ++ rest))) (derives' rest)
    | cons y items =>
      rcases ih fun other here => h other (List.mem_cons_of_mem _ here) with ⟨vs, spells', derives''⟩
      have comma := Spells.symbol ',' .comma (by decide) spells'.space
      have whole := spells.before (by decide) comma
      refine ⟨_, by simpa [commaSeparated] using whole, fun rest => ?_⟩
      have valueRead := derives' (.symbol .comma :: (vs ++ rest))
      simpa using Derives.pairs (derives (.symbol .colon :: (us ++ _))) valueRead (derives'' rest)

end

/-! ## Statements -/

theorem bind {x : String} {value : Expr} (named : isName x = true)
    (h : Writes (.expr .equality) s value) :
    Writes .sentence ("let ".toList ++ x.toList ++ " = ".toList ++ s) (.bind x value) := by
  rcases h with ⟨ts, spells, derives⟩
  have assigned := Spells.assign.before (by decide) spells.space
  have bound := (Spells.name named).before (by decide) assigned.space
  have whole := (Spells.keyword .letWord).before (by decide) bound.space
  refine ⟨_, by simpa [Keyword.text] using whole, fun rest => ?_⟩
  simpa using Derives.bind (derives rest)

theorem leave {value : Expr} (h : Writes (.expr .equality) s value) :
    Writes .sentence ("return ".toList ++ s) (.leave value) := by
  rcases h with ⟨ts, spells, derives⟩
  have whole := (Spells.keyword .returnWord).before (by decide) spells.space
  refine ⟨_, by simpa [Keyword.text] using whole, fun rest => ?_⟩
  simpa using Derives.leave (derives rest)

theorem expr {value : Expr} (h : Writes (.expr .equality) s value) :
    Writes .sentence s (.expr value) := by
  rcases h with ⟨ts, spells, derives⟩
  exact ⟨ts, spells, fun rest => .expr (derives rest)⟩

/-- A sentence with its semicolon. -/
theorem ended {statement : Statement} (h : Writes .sentence s statement) :
    Writes .statement (s ++ [';']) statement := by
  rcases h with ⟨ts, spells, derives⟩
  have whole := spells.before (by decide) (Spells.symbol ';' .semicolon (by decide) Spells.nil)
  refine ⟨_, whole, fun rest => ?_⟩
  simpa using Derives.ended (derives (.symbol .semicolon :: rest))

/-- Statements on lines of their own, indented. -/
theorem lines {text : Statement → List Char} {body : Block}
    (h : ∀ s ∈ body, Writes .statement (text s) s) :
    Writes .statements
      ((body.map text).flatMap fun line => '\t' :: indent false line ++ ['\n']) body := by
  induction body with
  | nil => exact ⟨[], Spells.nil, fun _ => .noStatements⟩
  | cons first body ih =>
    rcases h first List.mem_cons_self with ⟨ts, spells, derives⟩
    rcases ih fun other he => h other (List.mem_cons_of_mem first he) with ⟨us, spells', derives'⟩
    have whole := (spells.indent.before (by decide) spells'.newline).tab
    refine ⟨_, by simpa using whole, fun rest => ?_⟩
    simpa using Derives.statements (derives (us ++ rest)) (derives' rest)

theorem block {text : Statement → List Char} {body : Block}
    (h : ∀ s ∈ body, Writes .statement (text s) s) :
    Writes .block (braced (body.map text)) body := by
  rcases lines h with ⟨ts, spells, derives⟩
  have whole :=
    spells.newline.enclosed '\x7b' '\x7d' .openBrace .closeBrace (by decide) (by decide)
  refine ⟨_, by simpa [braced] using whole, fun rest => ?_⟩
  simpa using Derives.block (derives (.symbol .closeBrace :: rest))

end Writes
end Script
