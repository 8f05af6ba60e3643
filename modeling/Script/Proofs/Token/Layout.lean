import Script.Proofs.Token.Text

/-!
# Layout

Outside strings, blanks do nothing but keep tokens apart. So a text can be cut at any blanks that
stand outside its strings, and its two parts are read on their own; and how many blanks there are, and
which, makes no difference.

Main statement: `tokens_of_layout`.
-/

namespace Script

/-! ## Gaps -/

/-- A run of blanks with at least one in it. -/
structure Gap (w : List Char) : Prop where
  nonempty : w ≠ []
  blank : ∀ c ∈ w, isBlank c = true

instance (w : List Char) : Decidable (Gap w) :=
  decidable_of_iff (w.isEmpty = false ∧ w.all isBlank = true)
    ⟨fun h => ⟨List.isEmpty_eq_false_iff.1 h.1, List.all_eq_true.1 h.2⟩,
      fun h => ⟨List.isEmpty_eq_false_iff.2 h.nonempty, List.all_eq_true.2 h.blank⟩⟩

theorem isSeparator_of_isBlank {c : Char} (h : isBlank c = true) : isSeparator c = true := by
  simp only [isBlank, Bool.or_eq_true, decide_eq_true_eq] at h
  rcases h with ((rfl | rfl) | rfl) | rfl <;> decide

namespace Gap

variable {w s t : List Char} {ts us : List Token}

/-- No token goes over the end of a text into blanks. -/
theorem apart (gap : Gap w) (s t : List Char) : Apart s (w ++ t) := by
  cases w with
  | nil => exact absurd rfl gap.nonempty
  | cons c w =>
    have separator := isSeparator_of_isBlank (gap.blank c List.mem_cons_self)
    exact .of_head (joins_of_isSeparator_right separator) s (w ++ t)

/-- Blanks outside strings cut a text in two. -/
theorem tokens_append (gap : Gap w) (closed : Closed s) (t : List Char) :
    tokens (s ++ w ++ t) = tokens s ++ tokens t :=
  calc tokens (s ++ w ++ t)
    _ = tokens (s ++ (w ++ t)) := by rw [List.append_assoc]
    _ = tokens s ++ tokens (w ++ t) := Script.tokens_append closed (gap.apart s t)
    _ = tokens s ++ tokens t := by rw [tokens_append_of_blank gap.blank]

theorem spells (gap : Gap w) (first : Spells s ts) (second : Spells t us) :
    Spells (s ++ w ++ t) (ts ++ us) := by
  rcases first with ⟨closed, rfl⟩
  rcases second with ⟨closed', rfl⟩
  -- A quote is no blank.
  have noQuote : '"' ∉ w := fun quote => absurd (gap.blank _ quote) (by decide)
  have whole : Closed (s ++ w ++ t) := (closed.append (.of_notMem noQuote)).append closed'
  exact ⟨whole, gap.tokens_append closed t⟩

end Gap

/-! ## Tokens with gaps between them -/

/-- The text consists of the tokens in their order, with blanks between any two of them. -/
inductive LaidOut : List Token → List Char → Prop
  | nil : LaidOut [] []
  | single (t : Token) : LaidOut [t] t.source
  | cons {t u : Token} {ts : List Token} {w s : List Char} : Gap w → LaidOut (u :: ts) s →
      LaidOut (t :: u :: ts) (t.source ++ w ++ s)

theorem LaidOut.spells {ts : List Token} {s : List Char} (laid : LaidOut ts s)
    (lexical : Lexical ts) : Spells s ts := by
  induction laid with
  | nil => exact .nil
  | single t => exact .token (lexical t List.mem_cons_self)
  | @cons t u ts w s gap _ ih =>
    have first := Spells.token (lexical t List.mem_cons_self)
    exact gap.spells first (ih lexical.tail)

/-! ## Every text -/

/-- Blanks outside strings cut a text in two that are read on their own. So the tokens of a text,
however they are laid out again, are the tokens of the new text, and one run of blanks outside strings
is as good as another. -/
theorem tokens_of_layout :
    (∀ s w t, Closed s → Gap w → tokens (s ++ w ++ t) = tokens s ++ tokens t) ∧
    (∀ s x, LaidOut (tokens s) x → tokens x = tokens s) ∧
    ∀ s w w' t, Closed s → Gap w → Gap w' → tokens (s ++ w ++ t) = tokens (s ++ w' ++ t) := by
  refine ⟨fun s w t closed gap => gap.tokens_append closed t, fun s x laid => ?_, ?_⟩
  · exact (laid.spells (lexical_tokens s)).2
  · intro s w w' t closed gap gap'
    rw [gap.tokens_append closed, gap'.tokens_append closed]

/-- For example, `"a b"=` in front of a line break and of a string that is not closed. Laid out again,
the last string gets its second quote. -/
theorem tokens_of_layout_open :
    Closed "\"a b\"=".toList ∧ Gap "\r\n".toList ∧ Gap "\t ".toList ∧
    tokens "\"a b\"=\r\n=\"c".toList =
      [.str "a b", .symbol .assign] ++ [.symbol .assign, .str "c"] ∧
    tokens "\"a b\"\t =\t =\t \"c\"".toList = tokens "\"a b\"=\r\n=\"c".toList ∧
    tokens "\"a b\"=\r\n=\"c".toList = tokens "\"a b\"=\t =\"c".toList := by
  have closed : Closed "\"a b\"=".toList := by unfold Closed; decide
  have gap : Gap "\r\n".toList := by decide
  have gap' : Gap "\t ".toList := by decide
  have first : tokens "\"a b\"=".toList = [.str "a b", .symbol .assign] := by cbv
  have second : tokens "=\"c".toList = [.symbol .assign, .str "c"] := by cbv
  rcases tokens_of_layout with ⟨cut, again, other⟩
  have whole := cut _ _ "=\"c".toList closed gap
  rw [first, second] at whole
  refine ⟨closed, gap, gap', whole, ?_, other _ _ _ "=\"c".toList closed gap gap'⟩
  have laid : LaidOut ([.str "a b", .symbol .assign] ++ [.symbol .assign, .str "c"])
      "\"a b\"\t =\t =\t \"c\"".toList :=
    .cons gap' (.cons gap' (.cons gap' (.single _)))
  exact again _ _ (whole ▸ laid)

end Script
