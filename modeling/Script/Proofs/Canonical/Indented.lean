import Script.Proofs.Canonical
import Script.Proofs.Canonical.Depth
import Script.Proofs.Eval.Names

/-!
# Canonical texts are indented by depth

The canonical text of a tree is laid out by the depth of its blocks, whatever its strings hold but
quotes. By induction on the tree its text starts and ends outside all of its blocks; a block shows its
statements indented by one, and thereby puts itself around whatever they show.

Main statements: `Program.laidByDepth`, and `Draft.laid_by_depth` for whatever was read of a text.
-/

namespace Script

/-! ## Trees that can be shown -/

/-- The names are words and the strings hold no quote. -/
structure Showable (names : List String) (marks : List Mark) : Prop where
  words : ∀ x ∈ names, ∀ c ∈ x.toList, isWordChar c = true
  unquoted : ∀ text ∈ marks.filterMap Mark.literal?, '"' ∉ text.toList

namespace Showable

variable {names others : List String} {marks new : List Mark}

theorem nil : Showable [] [] where
  words := by simp
  unquoted := by simp

theorem append_iff :
    Showable (names ++ others) (marks ++ new) ↔ Showable names marks ∧ Showable others new := by
  constructor
  · rintro ⟨words, unquoted⟩
    rw [List.filterMap_append] at unquoted
    rcases List.forall_mem_append.1 words with ⟨words, words'⟩
    rcases List.forall_mem_append.1 unquoted with ⟨unquoted, unquoted'⟩
    exact ⟨⟨words, unquoted⟩, ⟨words', unquoted'⟩⟩
  · rintro ⟨first, second⟩
    refine ⟨List.forall_mem_append.2 ⟨first.words, second.words⟩, ?_⟩
    rw [List.filterMap_append]
    exact List.forall_mem_append.2 ⟨first.unquoted, second.unquoted⟩

theorem names_iff : Showable (names ++ others) marks ↔ Showable names [] ∧ Showable others marks := by
  rw [← append_iff, List.nil_append]

/-- Braces are no strings. -/
theorem enclosed_iff {m m' : Mark} (opening : m.literal? = none) (closing : m'.literal? = none) :
    Showable names (m :: marks ++ [m']) ↔ Showable names marks := by
  have same : (m :: marks ++ [m']).filterMap Mark.literal? = marks.filterMap Mark.literal? := by
    rw [List.cons_append, List.filterMap_cons_none opening, List.filterMap_append,
      List.filterMap_cons_none closing, List.filterMap_nil, List.append_nil]
  constructor
  · intro h
    exact ⟨h.words, same ▸ h.unquoted⟩
  · intro h
    exact ⟨h.words, same.symm ▸ h.unquoted⟩

theorem inBlock_iff : Showable names (inBlock marks) ↔ Showable names marks :=
  enclosed_iff rfl rfl

end Showable

/-! ## Texts of words and numbers -/

theorem isPlain_of_word {c : Char} (h : isWordChar c = true) : isPlain c = true :=
  isPlain_of_class (by decide) h

theorem isPlain_of_digit {c : Char} (h : c.isDigit = true) : isPlain c = true :=
  isPlain_of_class (by decide) h

theorem isPlain_of_integer {n : Int64} {c : Char} (h : c ∈ Integer.text n) : isPlain c = true := by
  unfold Integer.text Decimal.ofInt at h
  split at h
  · rcases List.mem_cons.1 h with rfl | digit
    · rfl
    · exact isPlain_of_digit (Decimal.isDigit_of_mem_ofNat digit)
  · exact isPlain_of_digit (Decimal.isDigit_of_mem_ofNat h)

namespace Nested

variable {d e f : Nat} {s t : List Char} {marks new : List Mark}

theorem word {x : String} (h : ∀ c ∈ x.toList, isWordChar c = true) : Nested d x.toList [] d :=
  of_plain (List.all_eq_true.2 fun c here => isPlain_of_word (h c here))

theorem behind (plain : t.all isPlain = true) (h : Nested d s marks e) :
    Nested d (t ++ s) marks e :=
  (of_plain plain).append h

theorem before (plain : t.all isPlain = true) (h : Nested d s marks e) :
    Nested d (s ++ t) marks e := by
  have whole := h.append (of_plain plain)
  rwa [List.append_nil] at whole

theorem parenthesised (h : Nested d s marks e) : Nested d (parenthesised s) marks e :=
  (h.cons rfl).before (by decide)

theorem hash (h : Nested d s marks d) :
    Nested d ('\x7b' :: s ++ ['\x7d']) (.openHash :: marks ++ [.closeHash]) d := by
  have closed : Nested d ['\x7d'] [.closeHash] d := .inline .closeHash .nil
  have opened : Nested d ['\x7b'] [.openHash] d := .inline .openHash .nil
  exact opened.append (h.append closed)

theorem literal {text : String} (h : '"' ∉ text.toList) :
    Nested d ('"' :: text.toList ++ ['"']) [.literal text] d := by
  have whole : Nested d _ _ d := .inline (.literal h) .nil
  rwa [List.append_nil, List.append_nil] at whole

/-! ## Lists and blocks -/

section

variable {α : Type} {items : List α} {text : α → List Char} {shown : α → List Mark}

theorem behindCommas (h : ∀ x ∈ items, Nested d (text x) (shown x) d) :
    Nested d (behindCommas (items.map text)) (items.flatMap shown) d := by
  induction items with
  | nil => exact .nil
  | cons x items ih =>
    rcases List.forall_mem_cons.1 h with ⟨first, others⟩
    exact ((first.cons rfl).cons rfl).append (ih others)

theorem separated (h : ∀ x ∈ items, Nested d (text x) (shown x) d) :
    Nested d (commaSeparated (items.map text)) (items.flatMap shown) d := by
  cases items with
  | nil => exact .nil
  | cons x items =>
    rcases List.forall_mem_cons.1 h with ⟨first, others⟩
    rw [List.map_cons, commaSeparated_cons]
    exact first.append (behindCommas others)

/-- The lines of a block. The line break in front of each belongs to it, and the last one stands in
front of the closing brace. -/
theorem blockLines (h : ∀ x ∈ items, Nested 0 (text x) (shown x) 0) :
    Nested 1 ('\n' :: ((items.map text).flatMap (fun line => '\t' :: Script.indent false line ++
      ['\n']) ++ ['\x7d'])) (items.flatMap shown ++ [.closeBlock]) 0 := by
  induction items with
  | nil => exact .closeBlock .nil
  | cons x items ih =>
    rcases List.forall_mem_cons.1 h with ⟨first, rest⟩
    -- The line break behind a statement is the one in front of what follows.
    have line := Nested.line (first.indent.append (ih rest))
    simpa using line

/-- A block with what it holds, one level further inside. -/
theorem braced (h : ∀ x ∈ items, Nested 0 (text x) (shown x) 0) :
    Nested 0 (braced (items.map text)) (inBlock (items.flatMap shown)) 0 :=
  .openBlock (blockLines h)

end

theorem params {xs : List String} (h : Showable xs []) :
    Nested d (commaSeparated (xs.map String.toList)) [] d := by
  have each : ∀ x ∈ xs, Nested d x.toList [] d := by
    intro x here
    exact word (h.words x here)
  -- Names show nothing, however many there are.
  have none : xs.flatMap (fun _ => ([] : List Mark)) = [] := List.flatMap_eq_nil_iff.2 fun _ _ => rfl
  exact none ▸ separated each

/-- As a test an expression stands in one pair of parentheses. -/
theorem test {test : Expr} (h : Nested d test.render marks e) :
    Nested d (if test.isParenthesised then test.render else Script.parenthesised test.render)
      marks e := by
  split
  · exact h
  · exact h.parenthesised

theorem block {body : Block} (h : ∀ s ∈ body, Nested 0 s.render s.marks 0) :
    Nested 0 (Script.braced (renderLines body)) (inBlock (blockMarks body)) 0 := by
  rw [renderLines_eq_map, blockMarks_eq_flatMap]
  exact braced h

end Nested

/-! ## Trees -/

mutual

theorem Expr.nested : ∀ e : Expr, Showable e.names e.marks → Nested 0 e.render e.marks 0
  | .name x, showable => .word (showable.words x List.mem_cons_self)
  | .int _, _ => .of_plain (List.all_eq_true.2 fun _ => isPlain_of_integer)
  | .str text, showable => .literal (showable.unquoted text List.mem_cons_self)
  | .bool b, _ => .of_plain (by cases b <;> decide)
  | .unary op a, showable => by
    have plain : op.text.toList.all isPlain = true := by cases op <;> decide
    exact ((a.nested showable).behind plain).parenthesised
  | .binary op a b, showable => by
    rcases Showable.append_iff.1 showable with ⟨left, right⟩
    have plain : (' ' :: op.text.toList).all isPlain = true := by cases op <;> decide
    have first := (a.nested left).before plain
    exact (first.append ((b.nested right).cons rfl)).parenthesised
  | .cond test yes none, showable => by
    rcases Showable.append_iff.1 showable with ⟨tested, branch⟩
    have block := Nested.block (nested_block yes (Showable.inBlock_iff.1 branch))
    have head := (test.nested tested).test.behind (t := "if ".toList) (by decide)
    exact head.append (block.cons rfl)
  | .cond test yes (some no), showable => by
    rcases Showable.append_iff.1 showable with ⟨first, other⟩
    rcases Showable.append_iff.1 first with ⟨tested, branch⟩
    have block := Nested.block (nested_block yes (Showable.inBlock_iff.1 branch))
    have block' := Nested.block (nested_block no (Showable.inBlock_iff.1 other))
    have head := (test.nested tested).test.behind (t := "if ".toList) (by decide)
    have upTo := (head.append (block.cons (c := ' ') rfl)).before (t := " else ".toList) (by decide)
    exact upTo.append block'
  | .fn params body, showable => by
    rcases Showable.names_iff.1 showable with ⟨words, inside⟩
    have block := Nested.block (nested_block body (Showable.inBlock_iff.1 inside))
    have named : Nested 0 _ [] 0 := (Nested.params words).parenthesised
    have head := named.behind (t := "fn".toList) (by decide)
    exact head.append (block.cons rfl)
  | .array es, showable => by
    have items := Nested.separated (nested_list es showable)
    rw [← renderList_eq_map, ← listMarks_eq_flatMap] at items
    exact (items.cons rfl).before (by decide)
  | .index a i, showable => by
    rcases Showable.append_iff.1 showable with ⟨collection, position⟩
    have whole := (a.nested collection).append ((i.nested position).cons (c := '[') rfl)
    exact (whole.before (by decide)).parenthesised
  | .hash ps, showable => by
    have items := Nested.separated (nested_pairs ps ((Showable.enclosed_iff rfl rfl).1 showable))
    rw [← renderPairs_eq_map, ← pairMarks_eq_flatMap] at items
    exact items.hash
  | .call f args, showable => by
    rcases Showable.append_iff.1 showable with ⟨callee, given⟩
    have items := Nested.separated (nested_list args given)
    rw [← renderList_eq_map, ← listMarks_eq_flatMap] at items
    exact (f.nested callee).append items.parenthesised

theorem Statement.nested : ∀ s : Statement, Showable s.names s.marks → Nested 0 s.render s.marks 0
  | .bind x value, showable => by
    have both : Showable ([x] ++ value.names) value.marks := showable
    rcases Showable.names_iff.1 both with ⟨word, given⟩
    have named : Nested 0 _ [] 0 := .word (word.words x List.mem_cons_self)
    have head := named.behind (t := "let ".toList) (by decide)
    have upTo := head.before (t := " = ".toList) (by decide)
    exact (upTo.append (value.nested given)).before (t := [';']) (by decide)
  | .leave value, showable => by
    have whole := (value.nested showable).behind (t := "return ".toList) (by decide)
    exact whole.before (t := [';']) (by decide)
  | .expr value, showable => (value.nested showable).before (t := [';']) (by decide)

theorem nested_block : ∀ body : Block, Showable (blockNames body) (blockMarks body) →
    ∀ s ∈ body, Nested 0 s.render s.marks 0
  | [], _ => List.forall_mem_nil _
  | s :: rest, showable => by
    rcases Showable.append_iff.1 showable with ⟨first, others⟩
    exact List.forall_mem_cons.2 ⟨s.nested first, nested_block rest others⟩

theorem nested_list : ∀ es : List Expr, Showable (listNames es) (listMarks es) →
    ∀ e ∈ es, Nested 0 e.render e.marks 0
  | [], _ => List.forall_mem_nil _
  | e :: rest, showable => by
    rcases Showable.append_iff.1 showable with ⟨first, others⟩
    exact List.forall_mem_cons.2 ⟨e.nested first, nested_list rest others⟩

theorem nested_pairs : ∀ ps : List (Expr × Expr), Showable (pairNames ps) (pairMarks ps) →
    ∀ p ∈ ps, Nested 0 (p.1.render ++ ':' :: ' ' :: p.2.render) (p.1.marks ++ p.2.marks) 0
  | [], _ => List.forall_mem_nil _
  | (key, value) :: rest, showable => by
    rcases Showable.append_iff.1 showable with ⟨pair, others⟩
    rcases Showable.append_iff.1 pair with ⟨first, second⟩
    have behind := ((value.nested second).cons (c := ' ') rfl).cons (c := ':') rfl
    exact List.forall_mem_cons.2 ⟨(key.nested first).append behind, nested_pairs rest others⟩

end

theorem Program.nested {program : Program} (h : ∀ s ∈ program, Nested 0 s.render s.marks 0) :
    Nested 0 program.render program.marks 0 := by
  induction program with
  | nil => exact .nil
  | cons s program ih =>
    rcases List.forall_mem_cons.1 h with ⟨first, others⟩
    -- Statements are on lines of their own, so the last one has no line break behind it.
    cases program with
    | nil => simpa [Program.render, renderLines, Program.marks, blockMarks] using first
    | cons t program =>
      have whole := first.append (.line (ih others))
      simpa [Program.render, renderLines, Program.marks, blockMarks] using whole

/-! ## Trees that were read -/

theorem Showable.of_isName {xs : List String} (h : ∀ x ∈ xs, isName x = true) : Showable xs [] where
  words := by
    intro x here
    have named := h x here
    simp only [isName, Bool.and_eq_true, List.all_eq_true] at named
    exact named.1.2
  unquoted := by simp

mutual

theorem Expr.showable : ∀ e : Expr, e.wellFormed = true → Showable e.names e.marks
  | .name _, wf => .of_isName (List.forall_mem_singleton.2 wf)
  | .int _, _ | .bool _, _ => .nil
  | .str _, wf =>
    { words := List.forall_mem_nil _, unquoted := List.forall_mem_singleton.2 (of_decide_eq_true wf) }
  | .unary _ a, wf => a.showable wf
  | .binary _ a b, wf => by
    rcases Bool.and_eq_true_iff.1 wf with ⟨left, right⟩
    exact Showable.append_iff.2 ⟨a.showable left, b.showable right⟩
  | .cond test yes none, wf => by
    simp only [Expr.wellFormed, Bool.and_true, Bool.and_eq_true] at wf
    have branch := Showable.inBlock_iff.2 (showable_block yes wf.2)
    exact Showable.append_iff.2 ⟨test.showable wf.1, branch⟩
  | .cond test yes (some no), wf => by
    simp only [Expr.wellFormed, Bool.and_eq_true] at wf
    have branch := Showable.inBlock_iff.2 (showable_block yes wf.1.2)
    have other := Showable.inBlock_iff.2 (showable_block no wf.2)
    exact Showable.append_iff.2 ⟨Showable.append_iff.2 ⟨test.showable wf.1.1, branch⟩, other⟩
  | .fn _ body, wf => by
    rcases Bool.and_eq_true_iff.1 wf with ⟨named, inner⟩
    have inside := Showable.inBlock_iff.2 (showable_block body inner)
    exact Showable.names_iff.2 ⟨.of_isName (List.all_eq_true.1 named), inside⟩
  | .array es, wf => showable_list es wf
  | .index a i, wf => by
    rcases Bool.and_eq_true_iff.1 wf with ⟨left, right⟩
    exact Showable.append_iff.2 ⟨a.showable left, i.showable right⟩
  | .hash ps, wf => (Showable.enclosed_iff rfl rfl).2 (showable_pairs ps wf)
  | .call f args, wf => by
    rcases Bool.and_eq_true_iff.1 wf with ⟨left, right⟩
    exact Showable.append_iff.2 ⟨f.showable left, showable_list args right⟩

theorem Statement.showable : ∀ s : Statement, s.wellFormed = true → Showable s.names s.marks
  | .bind x value, wf => by
    rcases Bool.and_eq_true_iff.1 wf with ⟨named, right⟩
    have word : Showable [x] [] := .of_isName (List.forall_mem_singleton.2 named)
    exact Showable.names_iff.2 ⟨word, value.showable right⟩
  | .leave value, wf | .expr value, wf => value.showable wf

theorem showable_block : ∀ body : Block, wellFormedBlock body = true →
    Showable (blockNames body) (blockMarks body)
  | [], _ => .nil
  | s :: rest, wf => by
    rcases Bool.and_eq_true_iff.1 wf with ⟨first, others⟩
    exact Showable.append_iff.2 ⟨s.showable first, showable_block rest others⟩

theorem showable_list : ∀ es : List Expr, wellFormedList es = true →
    Showable (listNames es) (listMarks es)
  | [], _ => .nil
  | e :: rest, wf => by
    rcases Bool.and_eq_true_iff.1 wf with ⟨first, others⟩
    exact Showable.append_iff.2 ⟨e.showable first, showable_list rest others⟩

theorem showable_pairs : ∀ ps : List (Expr × Expr), wellFormedPairs ps = true →
    Showable (pairNames ps) (pairMarks ps)
  | [], _ => .nil
  | (key, value) :: rest, wf => by
    simp only [wellFormedPairs, Bool.and_eq_true] at wf
    have pair := Showable.append_iff.2 ⟨key.showable wf.1.1, value.showable wf.1.2⟩
    exact Showable.append_iff.2 ⟨pair, showable_pairs rest wf.2⟩

end

/-! ## The main theorem -/

/-- The text of the program shows its strings and its braces as they are, and outside of its strings it
is indented by the depth of its blocks. -/
structure LaidByDepth (program : Program) : Prop where
  /-- No string is left open. -/
  closed : Closed program.render
  /-- The strings and the braces of the text are those of the tree, in print order. -/
  marks : marksIn program.render = program.marks.map Mark.token
  /-- The strings of the text are those of the tree, character for character. -/
  strings : (tokens program.render).filterMap Token.str? = program.literals
  /-- A line break that is outside a string is followed by as many tabs as blocks are open there, and
  by no more. -/
  lines : ∀ before after, program.render = before ++ '\n' :: after → Closed before →
    ∃ depth rest, LineAt program.marks 0 before after depth rest

theorem Nested.laid {program : Program} (h : Nested 0 program.render program.marks 0) :
    LaidByDepth program where
  closed := h.shows.closed
  marks := h.shows.marksIn_eq
  strings := strings_of_marksIn h.shows.marksIn_eq
  lines := h.lines

theorem Program.laidByDepth {program : Program} (h : Showable program.names program.marks) :
    LaidByDepth program :=
  (Program.nested (nested_block program h)).laid

/-- For example, a function inside a hash inside an array, with a string of two lines as its key. -/
theorem Program.laidByDepth_nested :
    let program : Program :=
      [.bind "f" (.fn ["x"] [.expr (.array [.hash [(.str "a\nb", .fn [] [])]])])]
    Showable program.names program.marks ∧
      program.render = "let f = fn(x) \x7b\n\t[\x7b\"a\nb\": fn() \x7b\n\t\x7d\x7d];\n\x7d;".toList ∧
      LaidByDepth program := by
  intro program
  have showable : Showable program.names program.marks := showable_block program (by decide)
  exact ⟨showable, by decide, Program.laidByDepth showable⟩

/-- Whatever was read of a text, its canonical text is indented by the depth of its blocks. -/
theorem Draft.laid_by_depth (source : String) : LaidByDepth (Draft.ofText source).statements := by
  have showable := showable_block _ (Draft.wellFormed_ofText source)
  exact (Program.nested (nested_block _ showable)).laid

end Script
