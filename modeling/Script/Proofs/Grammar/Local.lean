import Script.Proofs.Grammar.Basic
import Script.Proofs.Grammar.Replies
import Script.Proofs.Token.Lexical

/-!
# What stands behind a phrase

A phrase is a run of tokens at the front of the list. Of what stands behind it the grammar sees no
more than the kind of the first token, so any other rest that begins alike can take its place. And
with a few tokens more, the ends of the blocks that the input leaves open and a semicolon, the phrase
stands in front of any rest at all.
-/

namespace Script

theorem headKind_append {rest rest' : List Token} (same : headKind rest' = headKind rest)
    (run : List Token) : headKind (run ++ rest') = headKind (run ++ rest) := by
  cases run with
  | nil => exact same
  | cons t run => rfl

namespace Grammar

/-- The tokens of a phrase, taken out of the list that ends in `rest`. -/
structure Run (phrase : Phrase) (run : List Token) (tree : phrase.Tree) (rest : List Token) :
    Prop where
  moved : ∀ rest', headKind rest' = headKind rest → Derives phrase (run ++ rest') tree rest'
  completed : ∃ more, Lexical more ∧ ∀ rest', Derives phrase (run ++ (more ++ rest')) tree rest'

namespace Run

variable {phrase first last : Phrase} {tree : phrase.Tree} {a : first.Tree} {b : last.Tree}
  {run run' rest : List Token}

/-- A phrase that does not look at what follows. -/
theorem closed (h : ∀ rest', Derives phrase (run ++ rest') tree rest') :
    Run phrase run tree rest where
  moved := fun rest' _ => h rest'
  completed := ⟨[], nofun, h⟩

/-- A phrase that ends in another one. -/
theorem behind (h : Run last run' b rest) (start : List Token)
    (join : ∀ ts rest', Derives last ts b rest' → Derives phrase (start ++ ts) tree rest') :
    Run phrase (start ++ run') tree rest where
  moved := by
    intro rest' same
    rw [List.append_assoc]
    exact join _ rest' (h.moved rest' same)
  completed := by
    rcases h.completed with ⟨more, lexical, whole⟩
    refine ⟨more, lexical, fun rest' => ?_⟩
    rw [List.append_assoc]
    exact join _ rest' (whole rest')

/-- A phrase that consists of two, with nothing between them. -/
theorem seq (h : Run first run a (run' ++ rest)) (h' : Run last run' b rest) (start : List Token)
    (join : ∀ ts us rest', Derives first ts a us → Derives last us b rest' →
      Derives phrase (start ++ ts) tree rest') : Run phrase (start ++ (run ++ run')) tree rest where
  moved := by
    intro rest' same
    have whole := join _ _ rest' (h.moved _ (headKind_append same run')) (h'.moved rest' same)
    simpa using whole
  completed := by
    rcases h'.completed with ⟨more', lexical', whole'⟩
    cases run' with
    -- Nothing stands between the two, so the first one has to be completed as well.
    | nil =>
      rcases h.completed with ⟨more, lexical, whole⟩
      refine ⟨more ++ more', lexical.append lexical', fun rest' => ?_⟩
      simpa using join _ _ rest' (whole (more' ++ rest')) (whole' rest')
    | cons t run' =>
      refine ⟨more', lexical', fun rest' => ?_⟩
      have moved := h.moved (t :: run' ++ (more' ++ rest')) rfl
      simpa using join _ _ rest' moved (whole' rest')

end Run

/-- Every phrase is a run of tokens in front of its rest. -/
theorem Derives.run {phrase : Phrase} {ts rest : List Token} {tree : phrase.Tree}
    (h : Derives phrase ts tree rest) : ∃ run, ts = run ++ rest ∧ Run phrase run tree rest := by
  induction h with
  | tighter _ ih =>
    rcases ih with ⟨run, rfl, inner⟩
    exact ⟨run, rfl, inner.behind [] fun ts rest' h => .tighter h⟩
  | @binary op _ _ _ _ _ _ _ left right =>
    rcases left with ⟨run, rfl, left⟩
    rcases right with ⟨run', rfl, right⟩
    refine ⟨run ++ [.symbol op.symbol] ++ run', by simp, right.behind _ fun ts rest' h => ?_⟩
    simpa using Derives.binary (left.moved (.symbol op.symbol :: ts) rfl) h
  | @unary op _ _ _ _ ih =>
    rcases ih with ⟨run, rfl, inner⟩
    exact ⟨_, rfl, inner.behind [.symbol op.symbol] fun ts rest' h => .unary h⟩
  | call _ _ callee given =>
    rcases callee with ⟨run, rfl, callee⟩
    rcases given with ⟨run', rfl, given⟩
    refine ⟨run ++ .symbol .openParen :: (run' ++ [.symbol .closeParen]), by simp,
      .closed fun rest' => ?_⟩
    have opened := callee.moved (.symbol .openParen :: (run' ++ .symbol .closeParen :: rest')) rfl
    simpa using Derives.call opened (given.moved (.symbol .closeParen :: rest') rfl)
  | index _ _ collection position =>
    rcases collection with ⟨run, rfl, collection⟩
    rcases position with ⟨run', rfl, position⟩
    refine ⟨run ++ .symbol .openBracket :: (run' ++ [.symbol .closeBracket]), by simp,
      .closed fun rest' => ?_⟩
    have opened :=
      collection.moved (.symbol .openBracket :: (run' ++ .symbol .closeBracket :: rest')) rfl
    simpa using Derives.index opened (position.moved (.symbol .closeBracket :: rest') rfl)
  -- Atoms.
  | name => exact ⟨[_], rfl, .closed fun _ => .name⟩
  | int value => exact ⟨[_], rfl, .closed fun _ => .int value⟩
  | str => exact ⟨[_], rfl, .closed fun _ => .str⟩
  | true => exact ⟨[_], rfl, .closed fun _ => .true⟩
  | false => exact ⟨[_], rfl, .closed fun _ => .false⟩
  | group _ ih =>
    rcases ih with ⟨run, rfl, inner⟩
    refine ⟨.symbol .openParen :: (run ++ [.symbol .closeParen]), by simp, .closed fun rest' => ?_⟩
    simpa using Derives.group (inner.moved (.symbol .closeParen :: rest') rfl)
  | cond _ _ tested branch =>
    rcases tested with ⟨run, rfl, tested⟩
    rcases branch with ⟨run', rfl, branch⟩
    refine ⟨.keyword .ifWord :: .symbol .openParen :: (run ++ [.symbol .closeParen]) ++ run',
      by simp, branch.behind _ fun ts rest' h => ?_⟩
    simpa using Derives.cond (tested.moved (.symbol .closeParen :: ts) rfl) h
  | condElse _ _ _ tested branch other =>
    rcases tested with ⟨run, rfl, tested⟩
    rcases branch with ⟨run', rfl, branch⟩
    rcases other with ⟨run'', rfl, other⟩
    refine ⟨.keyword .ifWord :: .symbol .openParen ::
      (run ++ .symbol .closeParen :: (run' ++ [.keyword .elseWord])) ++ run'', by simp,
      other.behind _ fun ts rest' h => ?_⟩
    have first := tested.moved (.symbol .closeParen :: (run' ++ .keyword .elseWord :: ts)) rfl
    simpa using Derives.condElse first (branch.moved (.keyword .elseWord :: ts) rfl) h
  | @fn params _ _ _ _ ih =>
    rcases ih with ⟨run, rfl, inner⟩
    refine ⟨.keyword .fnWord :: .symbol .openParen ::
      (paramTokens params ++ [.symbol .closeParen]) ++ run, by simp,
      inner.behind _ fun ts rest' h => ?_⟩
    simpa using Derives.fn h
  | array _ ih =>
    rcases ih with ⟨run, rfl, inner⟩
    refine ⟨.symbol .openBracket :: (run ++ [.symbol .closeBracket]), by simp,
      .closed fun rest' => ?_⟩
    simpa using Derives.array (inner.moved (.symbol .closeBracket :: rest') rfl)
  | hash _ ih =>
    rcases ih with ⟨run, rfl, inner⟩
    refine ⟨.symbol .openBrace :: (run ++ [.symbol .closeBrace]), by simp, .closed fun rest' => ?_⟩
    simpa using Derives.hash (inner.moved (.symbol .closeBrace :: rest') rfl)
  -- Lists.
  | noElements => exact ⟨[], rfl, .closed fun _ => .noElements⟩
  | elements _ _ first others =>
    rcases first with ⟨run, rfl, first⟩
    rcases others with ⟨run', rfl, others⟩
    exact ⟨_, by simp, first.seq others [] fun ts us rest' h h' => .elements h h'⟩
  | noMore => exact ⟨[], rfl, .closed fun _ => .noMore⟩
  | more _ _ first others =>
    rcases first with ⟨run, rfl, first⟩
    rcases others with ⟨run', rfl, others⟩
    exact ⟨_, by simp, first.seq others [.symbol .comma] fun ts us rest' h h' => .more h h'⟩
  | noPairs => exact ⟨[], rfl, .closed fun _ => .noPairs⟩
  | lastPair _ _ first second =>
    rcases first with ⟨run, rfl, first⟩
    rcases second with ⟨run', rfl, second⟩
    refine ⟨run ++ [.symbol .colon] ++ run', by simp, second.behind _ fun ts rest' h => ?_⟩
    simpa using Derives.lastPair (first.moved (.symbol .colon :: ts) rfl) h
  | pairs _ _ _ first second others =>
    rcases first with ⟨run, rfl, first⟩
    rcases second with ⟨run', rfl, second⟩
    rcases others with ⟨run'', rfl, others⟩
    refine ⟨run ++ .symbol .colon :: (run' ++ [.symbol .comma]) ++ run'', by simp,
      others.behind _ fun ts rest' h => ?_⟩
    have key := first.moved (.symbol .colon :: (run' ++ .symbol .comma :: ts)) rfl
    simpa using Derives.pairs key (second.moved (.symbol .comma :: ts) rfl) h
  -- Statements.
  | block _ ih =>
    rcases ih with ⟨run, rfl, inner⟩
    refine ⟨.symbol .openBrace :: (run ++ [.symbol .closeBrace]), by simp, .closed fun rest' => ?_⟩
    simpa using Derives.block (inner.moved (.symbol .closeBrace :: rest') rfl)
  | openBlock inside ih =>
    rcases ih with ⟨run, rfl, inner⟩
    refine ⟨.symbol .openBrace :: run, by simp, fun rest' same => ?_, ?_⟩
    -- Only the end of the input begins like the end of the input.
    · rw [headKind_eq_eof_iff.1 same]
      exact .openBlock inside
    · rcases inner.completed with ⟨more, lexical, whole⟩
      refine ⟨more ++ [.symbol .closeBrace], lexical.append (by decide),
        fun rest' => ?_⟩
      simpa using Derives.block (whole (.symbol .closeBrace :: rest'))
  | @bind x _ _ _ _ ih =>
    rcases ih with ⟨run, rfl, inner⟩
    exact ⟨_, rfl, inner.behind [.keyword .letWord, .ident x, .symbol .assign]
      fun ts rest' h => .bind h⟩
  | leave _ ih =>
    rcases ih with ⟨run, rfl, inner⟩
    exact ⟨_, rfl, inner.behind [.keyword .returnWord] fun ts rest' h => .leave h⟩
  | expr _ ih =>
    rcases ih with ⟨run, rfl, inner⟩
    exact ⟨run, rfl, inner.behind [] fun ts rest' h => .expr h⟩
  | ended _ ih =>
    rcases ih with ⟨run, rfl, inner⟩
    refine ⟨run ++ [.symbol .semicolon], by simp, .closed fun rest' => ?_⟩
    simpa using Derives.ended (inner.moved (.symbol .semicolon :: rest') rfl)
  | bare _ follows ih =>
    rcases ih with ⟨run, rfl, inner⟩
    refine ⟨run, rfl, fun rest' same => .bare (inner.moved rest' same) (same ▸ follows), ?_⟩
    -- In front of anything else the statement needs its semicolon.
    rcases inner.completed with ⟨more, lexical, whole⟩
    refine ⟨more ++ [.symbol .semicolon], lexical.append (by decide),
      fun rest' => ?_⟩
    simpa using Derives.ended (whole (.symbol .semicolon :: rest'))
  | noStatements => exact ⟨[], rfl, .closed fun _ => .noStatements⟩
  | statements _ _ first others =>
    rcases first with ⟨run, rfl, first⟩
    rcases others with ⟨run', rfl, others⟩
    exact ⟨_, by simp, first.seq others [] fun ts us rest' h h' => .statements h h'⟩

end Grammar
end Script
