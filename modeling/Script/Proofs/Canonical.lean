import Script.Proofs.Canonical.Parsed
import Script.Proofs.Canonical.Writes
import Script.Proofs.Grammar

/-!
# Canonical texts read back

The canonical text of a well-formed tree is read as that tree, whatever stands behind it. The proof
goes through the grammar: by induction on the tree its canonical text is a phrase with that tree, and
phrases are read as their trees.

A condition shows its test in parentheses unless the test brings its own, so the induction keeps both
forms: what the text of an expression is as a whole, and what stands between its parentheses.

Main statements: `Program.text_reads_back`, and `Draft.printable` for what is left of a text that does
not fit as a whole.
-/

namespace Script

open Grammar

/-! ## Expressions and statements -/

/-- What the canonical text of an expression is. -/
structure Expr.Printed (e : Expr) : Prop where
  whole : Writes (.expr .suffix) e.render e
  inner : e.isParenthesised = true →
    ∃ text, e.render = parenthesised text ∧ Writes (.expr .equality) text e

namespace Expr.Printed

variable {e : Expr}

theorem of_parenthesised {text : List Char} (shown : e.render = parenthesised text)
    (h : Writes (.expr .equality) text e) : e.Printed where
  whole := by
    rw [shown]
    exact h.group.loosen (by decide)
  inner := fun _ => ⟨text, shown, h⟩

theorem of_bare (bare : e.isParenthesised = false) (h : Writes (.expr .suffix) e.render e) :
    e.Printed where
  whole := h
  inner := fun parenthesised => absurd parenthesised (by simp [bare])

theorem of_atom (bare : e.isParenthesised = false) (h : Writes (.expr .atom) e.render e) :
    e.Printed :=
  of_bare bare (h.loosen (by decide))

theorem loosest (h : e.Printed) : Writes (.expr .equality) e.render e :=
  h.whole.loosen (by decide)

/-- As a test an expression stands in one pair of parentheses. -/
theorem test (h : e.Printed) :
    ∃ text, (if e.isParenthesised then e.render else parenthesised e.render) = parenthesised text ∧
      Writes (.expr .equality) text e := by
  by_cases own : e.isParenthesised = true
  · rw [if_pos own]
    exact h.inner own
  · rw [if_neg own]
    exact ⟨e.render, rfl, h.loosest⟩

end Expr.Printed

/-- What the canonical text of a statement is. -/
def Statement.Printed (s : Statement) : Prop :=
  ∃ text, s.render = text ++ [';'] ∧ Writes .sentence text s

theorem Statement.Printed.writes {s : Statement} (h : s.Printed) : Writes .statement s.render s := by
  rcases h with ⟨text, shown, writes⟩
  rw [shown]
  exact writes.ended

theorem renderPairs_eq_map (ps : List (Expr × Expr)) :
    renderPairs ps = ps.map fun p => p.1.render ++ ':' :: ' ' :: p.2.render := by
  induction ps with
  | nil => rfl
  | cons p ps ih => simp [renderPairs, ih]

theorem Block.writes {body : Block} (h : ∀ s ∈ body, s.Printed) :
    Writes .block (braced (renderLines body)) body := by
  rw [renderLines_eq_map]
  exact Writes.block fun s hs => (h s hs).writes

mutual

theorem Expr.printed : ∀ e : Expr, e.wellFormed = true → e.Printed
  | .name x, wf => .of_atom rfl (Writes.name wf)
  | .int n, wf => .of_atom rfl (Writes.int (of_decide_eq_true wf))
  | .str text, wf => .of_atom rfl (Writes.str (of_decide_eq_true wf))
  | .bool b, _ => .of_atom rfl (Writes.bool b)
  -- Operators and indexing are shown in parentheses of their own, the other forms without.
  | .unary op a, wf => by
    have operand := a.printed wf
    exact .of_parenthesised rfl ((operand.whole.loosen (by decide)).unary.loosen (by decide))
  | .binary op a b, wf => by
    rcases Bool.and_eq_true_iff.1 wf with ⟨left, right⟩
    exact .of_parenthesised rfl ((a.printed left).whole.binary (b.printed right).whole)
  | .cond test yes none, wf => by
    simp only [Expr.wellFormed, Bool.and_true, Bool.and_eq_true] at wf
    rcases (test.printed wf.1).test with ⟨text, shown, tested⟩
    have branch := Block.writes (printed_block yes wf.2)
    have written := tested.cond branch
    rw [← shown] at written
    exact .of_atom rfl written
  | .cond test yes (some no), wf => by
    simp only [Expr.wellFormed, Bool.and_eq_true] at wf
    rcases (test.printed wf.1.1).test with ⟨text, shown, tested⟩
    have branch := Block.writes (printed_block yes wf.1.2)
    have other := Block.writes (printed_block no wf.2)
    have written := tested.condElse branch other
    rw [← shown] at written
    exact .of_atom rfl written
  | .fn params body, wf => by
    simp only [Expr.wellFormed, Bool.and_eq_true] at wf
    have inside := Block.writes (printed_block body wf.2)
    exact .of_atom rfl (Writes.fn (Spells.params wf.1) inside)
  | .array es, wf => by
    have items := Writes.elements fun e he => (printed_list es wf e he).loosest
    rw [List.map_id', ← renderList_eq_map] at items
    exact .of_atom rfl items.array
  | .index a i, wf => by
    rcases Bool.and_eq_true_iff.1 wf with ⟨left, right⟩
    have indexed := (a.printed left).whole.index (i.printed right).loosest
    exact .of_parenthesised rfl (indexed.loosen (by decide))
  | .hash ps, wf => by
    have items := Writes.pairs fun p hp =>
      ⟨(printed_pairs ps wf p hp).1.loosest, (printed_pairs ps wf p hp).2.loosest⟩
    rw [List.map_id', ← renderPairs_eq_map] at items
    exact .of_atom rfl items.hash
  | .call f args, wf => by
    rcases Bool.and_eq_true_iff.1 wf with ⟨left, right⟩
    have given := Writes.elements fun e he => (printed_list args right e he).loosest
    rw [List.map_id', ← renderList_eq_map] at given
    exact .of_bare rfl ((f.printed left).whole.call given)

theorem Statement.printed : ∀ s : Statement, s.wellFormed = true → s.Printed
  | .bind x value, wf => by
    rcases Bool.and_eq_true_iff.1 wf with ⟨named, right⟩
    exact ⟨_, rfl, Writes.bind named (value.printed right).loosest⟩
  | .leave value, wf => ⟨_, rfl, Writes.leave (value.printed wf).loosest⟩
  | .expr value, wf => ⟨_, rfl, Writes.expr (value.printed wf).loosest⟩

theorem printed_block : ∀ body : Block, wellFormedBlock body = true → ∀ s ∈ body, s.Printed
  | [], _ => by simp
  | s :: rest, wf => by
    rcases Bool.and_eq_true_iff.1 wf with ⟨first, others⟩
    exact List.forall_mem_cons.2 ⟨s.printed first, printed_block rest others⟩

theorem printed_list : ∀ es : List Expr, wellFormedList es = true → ∀ e ∈ es, e.Printed
  | [], _ => by simp
  | e :: rest, wf => by
    rcases Bool.and_eq_true_iff.1 wf with ⟨first, others⟩
    exact List.forall_mem_cons.2 ⟨e.printed first, printed_list rest others⟩

theorem printed_pairs : ∀ ps : List (Expr × Expr), wellFormedPairs ps = true →
    ∀ p ∈ ps, p.1.Printed ∧ p.2.Printed
  | [], _ => by simp
  | (key, value) :: rest, wf => by
    simp only [wellFormedPairs, Bool.and_eq_true] at wf
    exact List.forall_mem_cons.2
      ⟨⟨key.printed wf.1.1, value.printed wf.1.2⟩, printed_pairs rest wf.2⟩

end

/-! ## Programs -/

/-- A sentence with its semicolon is read as a statement, whatever comes next. -/
theorem Draft.ofTokens_of_sentence {ts rest : List Token} {s : Statement}
    (h : Derives .sentence ts s (.symbol .semicolon :: rest)) :
    Draft.ofTokens ts = ⟨s :: (Draft.ofTokens rest).statements, (Draft.ofTokens rest).errors⟩ := by
  rcases Parse.reads_of_derives h (Parse.ends_symbol rfl) with ⟨us, semicolon, read⟩
  rw [Parse.skipSemicolon_of_eq (by rw [semicolon]; rfl), semicolon] at read
  -- A sentence is not empty, so a statement is read before the end of the input.
  have starts := h.starts
  cases ts with
  | nil => cases starts
  | cons t following =>
    rw [Draft.ofTokens_cons, read]
    simp [Reply.done, Reply.built, Reply.errors]

/-- The canonical text of a program in front of other tokens. -/
theorem Program.printed {program : Program} (h : ∀ s ∈ program, s.Printed) :
    ∃ ts, Spells program.render ts ∧ ∀ rest, Draft.ofTokens (ts ++ rest) =
      ⟨program ++ (Draft.ofTokens rest).statements, (Draft.ofTokens rest).errors⟩ := by
  induction program with
  | nil => exact ⟨[], Spells.nil, fun _ => rfl⟩
  | cons s program ih =>
    rcases List.forall_mem_cons.1 h with ⟨⟨text, shown, us, spells, derives⟩, others⟩
    rcases ih others with ⟨vs, spells', reads⟩
    have sentence := spells.before (by decide) (Spells.symbol ';' .semicolon (by decide) Spells.nil)
    rw [← shown] at sentence
    have first (rest : List Token) : Draft.ofTokens (us ++ [.symbol .semicolon] ++ rest) =
        ⟨s :: (Draft.ofTokens rest).statements, (Draft.ofTokens rest).errors⟩ := by
      rw [List.append_assoc]
      exact Draft.ofTokens_of_sentence (derives (.symbol .semicolon :: rest))
    -- Statements are on lines of their own, so the last one has no line break behind it.
    cases program with
    | nil =>
      refine ⟨_, ?_, first⟩
      simpa [Program.render, renderLines, List.intercalate_singleton] using sentence
    | cons t program =>
      have whole := sentence.before (by decide) spells'.newline
      refine ⟨us ++ [.symbol .semicolon] ++ vs, ?_, fun rest => ?_⟩
      · simpa [Program.render, renderLines, List.intercalate_cons_cons] using whole
      · rw [List.append_assoc, first, reads]
        rfl

theorem Program.parse_text {program : Program} (wf : program.wellFormed = true) :
    Program.parse program.text = .ok program := by
  rcases Program.printed (printed_block program wf) with ⟨ts, spells, reads⟩
  have characters : program.text.toList = program.render := String.toList_ofList
  have clean := reads []
  rw [List.append_nil, ← spells.2, ← characters] at clean
  unfold Program.parse Draft.ofText
  rw [clean]
  simp [Draft.ofTokens]

/-- The canonical text of a well-formed program is read as that program. In front of any other text,
on a line of its own, it adds its statements to what is read there and takes nothing away. -/
theorem Program.text_reads_back {program : Program} (wf : program.wellFormed = true) :
    (∀ s : String, Draft.ofText (program.text ++ "\n" ++ s) =
      ⟨program ++ (Draft.ofText s).statements, (Draft.ofText s).errors⟩) ∧
    Program.parse program.text = .ok program := by
  constructor
  · intro s
    rcases Program.printed (printed_block program wf) with ⟨ts, spells, reads⟩
    have characters : program.text.toList = program.render := String.toList_ofList
    have layout : (program.text ++ "\n" ++ s).toList = program.render ++ '\n' :: s.toList := by
      simp [characters]
    have blank : ∀ c ∈ ['\n'], isBlank c = true := List.forall_mem_cons.2 ⟨rfl, nofun⟩
    have line : tokens ('\n' :: s.toList) = tokens s.toList :=
      tokens_append_of_blank blank s.toList
    -- The line break keeps the two texts apart and is a blank in front of the second one.
    have apart : Apart program.render ('\n' :: s.toList) :=
      Apart.of_head (joins_of_isSeparator_right (by decide)) _ _
    unfold Draft.ofText
    rw [layout, tokens_append spells.1 apart, line, spells.2, reads]
  · exact Program.parse_text wf

/-- For example, a function whose body holds a condition and a string of two lines. -/
theorem Program.text_reads_back_nested :
    let program : Program :=
      [.bind "f" (.fn ["x"] [.expr (.cond (.name "x") [.leave (.str "a\nb")] (some []))])]
    program.wellFormed = true ∧ Program.parse program.text = .ok program :=
  ⟨by decide, (Program.text_reads_back (by decide)).2⟩

/-! ## Drafts -/

/-- Whatever the text, and however much of it was left out, the tree that is built is well-formed, and
its canonical text is read as that tree. So writing, reading and writing again gives the same text. -/
theorem Draft.printable (source : String) :
    let program : Program := (Draft.ofText source).statements
    program.wellFormed = true ∧ Program.parse program.text = .ok program ∧
      (Program.parse program.text).map Program.text = .ok program.text := by
  intro program
  have wf : program.wellFormed = true := Draft.wellFormed_ofText source
  have read : Program.parse program.text = .ok program := Program.parse_text wf
  exact ⟨wf, read, congrArg (Except.map Program.text) read⟩

end Script
