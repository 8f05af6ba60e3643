import Script.Proofs.Canonical.Marks

/-!
# Texts that are indented by depth

`Nested d s marks e`: the text `s` shows the marks, it starts where `d` blocks are open and ends where
`e` are, and each of its lines is indented by as many tabs as blocks are open there. A block is closed
by a brace at the start of a line, and that line belongs outside the block.

To indent such a text as a whole is to put one more block around it: `Nested.indent`. This is the only
thing that has to be known about indentation, however often a text is indented.

Main statement: `Nested.lines`, which counts the blocks that are open at a line break in the marks that
are read up to there.
-/

namespace Script

/-! ## Texts and their marks -/

/-- The text shows the marks: every string of it is closed, and they are what is read of it. -/
structure Shows (u : List Char) (marks : List Mark) : Prop where
  closed : Closed u
  read : ∀ s, marksIn (u ++ s) = marks.map Mark.token ++ marksIn s

/-- The line breaks of the text are all in its strings. -/
def Unbroken (u : List Char) : Prop :=
  ∀ before after, u = before ++ '\n' :: after → ¬ Closed before

namespace Shows

variable {u v : List Char} {marks new : List Mark}

theorem nil : Shows [] [] where
  closed := Closed.nil
  read _ := rfl

theorem append (first : Shows u marks) (second : Shows v new) : Shows (u ++ v) (marks ++ new) where
  closed := first.closed.append second.closed
  read := by
    intro s
    rw [List.append_assoc, first.read, second.read, List.map_append, List.append_assoc]

/-- What is read of the text on its own. -/
theorem marksIn_eq (h : Shows u marks) : marksIn u = marks.map Mark.token := by
  have alone := h.read []
  rwa [List.append_nil, marksIn_nil, List.append_nil] at alone

theorem unmarked (h : u.all isUnmarked = true) : Shows u [] where
  closed := .of_notMem fun here => absurd (List.all_eq_true.1 h _ here) (by decide)
  read := marksIn_append (List.all_eq_true.1 h)

theorem literal {text : String} (h : '"' ∉ text.toList) :
    Shows ('"' :: text.toList ++ ['"']) [.literal text] where
  closed := by
    have none : text.toList.count '"' = 0 := List.count_eq_zero.2 h
    simp [Closed, none]
  read := by
    intro s
    rw [List.append_assoc]
    exact marksIn_literal h s

/-- A brace, whatever it opens. -/
theorem openBrace {m : Mark} (h : m.token = .symbol .openBrace) : Shows ['\x7b'] [m] where
  closed := .of_notMem (by decide)
  read := by
    intro s
    rw [List.map_singleton, h]
    exact marksIn_openBrace s

theorem closeBrace {m : Mark} (h : m.token = .symbol .closeBrace) : Shows ['\x7d'] [m] where
  closed := .of_notMem (by decide)
  read := by
    intro s
    rw [List.map_singleton, h]
    exact marksIn_closeBrace s

theorem tabs (d : Nat) : Shows (List.replicate d '\t') [] :=
  unmarked (List.all_eq_true.2 fun _ here => List.eq_of_mem_replicate here ▸ rfl)

theorem newline : Shows ['\n'] [] :=
  unmarked rfl

end Shows

theorem Unbroken.of_notMem {u : List Char} (h : '\n' ∉ u) : Unbroken u := by
  rintro before after rfl
  exact absurd h (by simp)

theorem Unbroken.tabs (d : Nat) : Unbroken (List.replicate d '\t') :=
  .of_notMem (by simp [List.mem_replicate])

theorem Unbroken.literal {text : List Char} (h : '"' ∉ text) : Unbroken ('"' :: text ++ ['"']) := by
  intro before after split closed
  -- What stands before the line break is the opening quote and a part of the string.
  rcases before with _ | ⟨c, before⟩
  · exact absurd (List.cons.inj split).1 (by decide)
  rcases List.cons.inj split with ⟨rfl, inside⟩
  have part : before <+: text := by
    rcases List.append_eq_append_iff.1 inside with ⟨u, rfl, last⟩ | ⟨u, rest, -⟩
    · cases u with
      | nil => simp
      | cons d u => simp at last
    · exact ⟨u, rest.symm⟩
  have none : before.count '"' = 0 := List.count_eq_zero.2 fun here => h (part.subset here)
  simp [Closed, none] at closed

/-- A line break behind such a text is behind all of it. -/
theorem Unbroken.exists_behind {u s before after : List Char} (unbroken : Unbroken u)
    (split : u ++ s = before ++ '\n' :: after) (closed : Closed before) :
    ∃ before', before = u ++ before' ∧ s = before' ++ '\n' :: after := by
  rcases List.append_eq_append_iff.1 split with later | ⟨u', inside, rest⟩
  · exact later
  · rcases u' with _ | ⟨c, u'⟩
    · exact ⟨[], by simpa using inside.symm, rest.symm⟩
    · rcases List.cons.inj rest with ⟨rfl, -⟩
      exact absurd closed (unbroken before u' inside)

/-- What stands behind a closed text opens no string that the whole does not open. -/
theorem Closed.of_append {u s : List Char} (first : Closed u) (whole : Closed (u ++ s)) : Closed s := by
  have count : (u ++ s).count '"' = u.count '"' + s.count '"' := List.count_append
  unfold Closed at *
  omega

/-! ## Pieces of a line -/

/-- A character that starts no mark and has no part in the layout. -/
def isPlain (c : Char) : Bool :=
  isUnmarked c && c ∉ ['\n', '\t']

theorem isPlain_iff {c : Char} :
    isPlain c = true ↔ isUnmarked c = true ∧ c ≠ '\n' ∧ c ≠ '\t' := by
  simp [isPlain]

/-- A class without the marks and the layout has plain characters only. -/
theorem isPlain_of_class {p : Char → Bool}
    (others : ['"', '\x7b', '\x7d', '\n', '\t'].any p = false) {c : Char} (h : p c = true) :
    isPlain c = true := by
  have free : c ∉ ['"', '\x7b', '\x7d', '\n', '\t'] := by
    intro here
    exact absurd h (List.any_eq_false.1 others c here)
  simpa [isPlain, isUnmarked, and_assoc] using free

/-- The pieces of a line, which neither open nor close a block. -/
inductive Inline : List Char → List Mark → Prop
  | plain {c : Char} : isPlain c = true → Inline [c] []
  | literal {text : String} : '"' ∉ text.toList →
      Inline ('"' :: text.toList ++ ['"']) [.literal text]
  | openHash : Inline ['\x7b'] [.openHash]
  | closeHash : Inline ['\x7d'] [.closeHash]

/-- Indentation is off up to the closing quote. -/
theorem indent_literal {text : List Char} (h : '"' ∉ text) (s : List Char) :
    indent true (text ++ '"' :: s) = text ++ '"' :: indent false s := by
  induction text with
  | nil => rfl
  | cons c text ih =>
    rcases not_or.1 (List.mem_cons.not.1 h) with ⟨quote, others⟩
    rw [List.cons_append, indent_true_of_ne (Ne.symm quote), ih others]
    rfl

namespace Inline

variable {u : List Char} {marks : List Mark}

theorem shows (h : Inline u marks) : Shows u marks := by
  cases h with
  | plain plain => exact .unmarked (by simpa using (isPlain_iff.1 plain).1)
  | literal unquoted => exact .literal unquoted
  | openHash => exact .openBrace rfl
  | closeHash => exact .closeBrace rfl

theorem unbroken (h : Inline u marks) : Unbroken u := by
  cases h with
  | plain plain => exact .of_notMem (by simpa using Ne.symm (isPlain_iff.1 plain).2.1)
  | literal unquoted => exact .literal unquoted
  | openHash => exact .of_notMem (by decide)
  | closeHash => exact .of_notMem (by decide)

/-- A piece of a line is left alone by indentation. -/
theorem indent (h : Inline u marks) (s : List Char) :
    indent false (u ++ s) = u ++ Script.indent false s := by
  cases h with
  | @plain c plain =>
    have quote : c ≠ '"' := by
      rintro rfl
      exact absurd plain (by decide)
    exact indent_of_ne quote (isPlain_iff.1 plain).2.1 s
  | literal unquoted =>
    have inside := indent_literal unquoted s
    rw [List.append_assoc, List.append_assoc]
    exact congrArg ('"' :: ·) inside
  | openHash => exact indent_of_ne (by decide) (by decide) s
  | closeHash => exact indent_of_ne (by decide) (by decide) s

theorem head?_ne (h : Inline u marks) (s : List Char) : (u ++ s).head? ≠ some '\t' := by
  cases h with
  | plain plain => simpa using (isPlain_iff.1 plain).2.2
  | _ => simp

/-- A closing brace in a line belongs to a hash. -/
theorem eq_closeHash (h : Inline u marks) {s : List Char}
    (brace : (u ++ s).head? = some '\x7d') : marks = [.closeHash] := by
  cases h with
  | @plain c plain =>
    have same : c = '\x7d' := by simpa using brace
    subst same
    exact absurd plain (by decide)
  | closeHash => rfl
  | _ => simp at brace

theorem count (h : Inline u marks) :
    marks.count .openBlock = 0 ∧ marks.count .closeBlock = 0 := by
  cases h <;> exact ⟨rfl, rfl⟩

end Inline

/-! ## Texts with blocks -/

/-- The text has the marks, it starts inside as many blocks as the first number says and ends inside as
many as the second one says, and its lines are indented accordingly. -/
inductive Nested : Nat → List Char → List Mark → Nat → Prop
  | nil {d : Nat} : Nested d [] [] d
  | inline {d e : Nat} {u s : List Char} {new marks : List Mark} :
      Inline u new → Nested d s marks e → Nested d (u ++ s) (new ++ marks) e
  | openBlock {d e : Nat} {s : List Char} {marks : List Mark} :
      Nested (d + 1) s marks e → Nested d ('\x7b' :: s) (.openBlock :: marks) e
  | line {d e : Nat} {s : List Char} {marks : List Mark} :
      Nested d s marks e → Nested d ('\n' :: (List.replicate d '\t' ++ s)) marks e
  | closeBlock {d e : Nat} {s : List Char} {marks : List Mark} :
      Nested d s marks e →
        Nested (d + 1) ('\n' :: (List.replicate d '\t' ++ '\x7d' :: s)) (.closeBlock :: marks) e

/-- Behind its tabs a line starts with another character. -/
theorem indent_tabs (d : Nat) (s : List Char) :
    indent false (List.replicate d '\t' ++ s) = List.replicate d '\t' ++ indent false s := by
  induction d with
  | zero => rfl
  | succ d ih =>
    rw [List.replicate_succ, List.cons_append, indent_of_ne (by decide) (by decide), ih]
    rfl

namespace Nested

variable {d e f : Nat} {s t : List Char} {marks new : List Mark}

theorem append (first : Nested d s marks e) (second : Nested e t new f) :
    Nested d (s ++ t) (marks ++ new) f := by
  induction first with
  | nil => exact second
  | inline piece _ ih =>
    rw [List.append_assoc, List.append_assoc]
    exact .inline piece (ih second)
  | openBlock _ ih => exact .openBlock (ih second)
  | line _ ih =>
    rw [List.cons_append, List.append_assoc]
    exact .line (ih second)
  | closeBlock _ ih =>
    rw [List.cons_append, List.append_assoc]
    exact .closeBlock (ih second)

theorem cons {c : Char} (plain : isPlain c = true) (h : Nested d s marks e) :
    Nested d (c :: s) marks e :=
  .inline (.plain plain) h

theorem of_plain (h : s.all isPlain = true) : Nested d s [] d := by
  induction s with
  | nil => exact .nil
  | cons c s ih =>
    rcases Bool.and_eq_true_iff.1 h with ⟨plain, others⟩
    exact cons plain (ih others)

/-- An indented text is laid out one block further inside. -/
theorem indent (h : Nested d s marks e) : Nested (d + 1) (indent false s) marks (e + 1) := by
  induction h with
  | nil => exact .nil
  | inline piece _ ih =>
    rw [piece.indent]
    exact .inline piece ih
  | openBlock _ ih =>
    rw [indent_of_ne (by decide) (by decide)]
    exact .openBlock ih
  -- The tab that is new makes the line start with one tab more.
  | @line d e s marks _ ih =>
    have shown : Script.indent false ('\n' :: (List.replicate d '\t' ++ s)) =
        '\n' :: (List.replicate (d + 1) '\t' ++ Script.indent false s) :=
      congrArg (['\n', '\t'] ++ ·) (indent_tabs d s)
    rw [shown]
    exact .line ih
  | @closeBlock d e s marks _ ih =>
    have brace : Script.indent false ('\x7d' :: s) = '\x7d' :: Script.indent false s :=
      indent_of_ne (by decide) (by decide) s
    have shown : Script.indent false ('\n' :: (List.replicate d '\t' ++ '\x7d' :: s)) =
        '\n' :: (List.replicate (d + 1) '\t' ++ '\x7d' :: Script.indent false s) := by
      rw [← brace]
      exact congrArg (['\n', '\t'] ++ ·) (indent_tabs d _)
    rw [shown]
    exact .closeBlock ih

theorem shows (h : Nested d s marks e) : Shows s marks := by
  induction h with
  | nil => exact .nil
  | inline piece _ ih => exact piece.shows.append ih
  | openBlock _ ih => exact (Shows.openBrace rfl).append ih
  | @line d _ _ _ _ ih => exact Shows.newline.append ((Shows.tabs d).append ih)
  | @closeBlock d _ _ _ _ ih =>
    exact Shows.newline.append ((Shows.tabs d).append ((Shows.closeBrace rfl).append ih))

theorem head?_ne (h : Nested d s marks e) : s.head? ≠ some '\t' := by
  cases h with
  | inline piece _ => exact piece.head?_ne _
  | _ => simp

/-- A closing brace that does not stand at the start of a line belongs to a hash. -/
theorem exists_closeHash (h : Nested d s marks e) (brace : s.head? = some '\x7d') :
    ∃ others, marks = .closeHash :: others := by
  cases h with
  | inline piece _ => exact ⟨_, by rw [piece.eq_closeHash brace]; rfl⟩
  | _ => simp at brace

end Nested

/-! ## Lines -/

/-- The marks up to the first character of a line: those of the text in front of the line break, and one
more if the line starts with a closing brace. -/
def marksUpTo (marks : List Mark) (before rest : List Char) : List Mark :=
  marks.take ((marksIn before).length + if rest.head? = some '\x7d' then 1 else 0)

/-- The line behind a line break is indented by one tab for each block that is open there, where
`outer` blocks are open in front of the whole text. A block that is closed at the start of the line is
not open any more, and the braces of hashes do not count. -/
structure LineAt (marks : List Mark) (outer : Nat) (before after : List Char) (depth : Nat)
    (rest : List Char) : Prop where
  /-- What is read in front of the line break are the first of the marks. -/
  front : marksIn before = (marks.take (marksIn before).length).map Mark.token
  indented : after = List.replicate depth '\t' ++ rest
  exactly : rest.head? ≠ some '\t'
  blocks : outer + (marksUpTo marks before rest).count .openBlock =
    depth + (marksUpTo marks before rest).count .closeBlock

/-- Every line behind a line break that is outside a string is indented by depth. -/
def LinesAt (marks : List Mark) (outer : Nat) (s : List Char) : Prop :=
  ∀ before after, s = before ++ '\n' :: after → Closed before →
    ∃ depth rest, LineAt marks outer before after depth rest

section

variable {d e depth : Nat} {u s before after rest : List Char} {marks new : List Mark}

/-- A line behind other text is the same line, with the marks of that text in front. -/
theorem LineAt.behind (shows : Shows u new)
    (blocks : d + new.count .openBlock = e + new.count .closeBlock)
    (h : LineAt marks e before after depth rest) :
    LineAt (new ++ marks) d (u ++ before) after depth rest where
  front := by
    rw [shows.read, List.length_append, List.length_map, List.take_length_add_append,
      List.map_append, ← h.front]
  indented := h.indented
  exactly := h.exactly
  blocks := by
    have passed :
        marksUpTo (new ++ marks) (u ++ before) rest = new ++ marksUpTo marks before rest := by
      unfold marksUpTo
      rw [shows.read, List.length_append, List.length_map, Nat.add_assoc,
        List.take_length_add_append]
    have counted := h.blocks
    rw [passed, List.count_append, List.count_append]
    omega

/-- Text without line breaks of its own adds no line. -/
theorem LinesAt.behind (shows : Shows u new) (unbroken : Unbroken u)
    (blocks : d + new.count .openBlock = e + new.count .closeBlock) (h : LinesAt marks e s) :
    LinesAt (new ++ marks) d (u ++ s) := by
  intro before after split closed
  rcases unbroken.exists_behind split closed with ⟨before', rfl, split'⟩
  rcases h before' after split' (shows.closed.of_append closed) with ⟨depth, rest, line⟩
  exact ⟨depth, rest, line.behind shows blocks⟩

/-- A line break adds one line, and the others are as before. -/
theorem LinesAt.newline (first : LineAt marks d [] s depth rest) (h : LinesAt marks d s) :
    LinesAt marks d ('\n' :: s) := by
  intro before after split closed
  rcases before with _ | ⟨c, before⟩
  · rcases List.cons.inj split with ⟨-, rfl⟩
    exact ⟨depth, rest, first⟩
  · rcases List.cons.inj split with ⟨rfl, split'⟩
    rcases h before after split' (closed.of_cons (by decide)) with ⟨depth, rest, line⟩
    exact ⟨depth, rest, line.behind Shows.newline rfl⟩

end

/-- In a text that is laid out, each line is indented by depth. -/
theorem Nested.lines {d e : Nat} {s : List Char} {marks : List Mark} (h : Nested d s marks e) :
    LinesAt marks d s := by
  induction h with
  | nil =>
    intro before after split
    simp at split
  | inline piece _ ih =>
    have blocks := piece.count
    exact ih.behind piece.shows piece.unbroken (by omega)
  | openBlock _ ih => exact ih.behind (Shows.openBrace rfl) (.of_notMem (by decide)) rfl
  | @line d e s marks inner ih =>
    refine (ih.behind (Shows.tabs d) (.tabs d) rfl).newline ⟨by simp, rfl, inner.head?_ne, ?_⟩
    -- In front of the line are the `d` blocks only, and a brace that starts it belongs to a hash.
    by_cases brace : s.head? = some '\x7d'
    · rcases inner.exists_closeHash brace with ⟨others, rfl⟩
      simp [marksUpTo, brace]
    · simp [marksUpTo, brace]
  | @closeBlock d e s marks inner ih =>
    have closing : LinesAt (.closeBlock :: marks) (d + 1) ('\x7d' :: s) :=
      ih.behind (Shows.closeBrace rfl) (.of_notMem (by decide)) rfl
    refine (closing.behind (Shows.tabs d) (.tabs d) rfl).newline ⟨by simp, rfl, by simp, ?_⟩
    simp [marksUpTo]

end Script
