import Script.Program.ParseError
import Script.Proofs.Grammar.Local
import Script.Proofs.Grammar.Strength

/-!
# Phrases that have begun

A run of tokens has begun a phrase if some tokens behind it complete the phrase, whatever comes next.
Whatever is read of a text in front of its first error is such a run: `Stuck phrase ts d` says that the
tokens of `ts` in front of the one that `d` blames have begun a phrase.

The rules here are those of the grammar: a phrase has begun when one of its parts has, the parts in
front of that one being complete.
-/

namespace Script
namespace Grammar

/-- The token to blame is the first one of `rest`, and it is the one that the error names. -/
def Blames (d : Diagnostic) (rest : List Token) : Prop :=
  d.ahead = rest.length ∧
    match d.error with
    | .unexpected _ found | .noOperand found => headKind rest = found
    | .outOfRange digits => rest.head? = some (.int digits)

def Begun (phrase : Phrase) (run : List Token) : Prop :=
  ∃ more, Lexical more ∧ ∀ rest, ∃ tree, Derives phrase (run ++ (more ++ rest)) tree rest

def Stuck (phrase : Phrase) (ts : List Token) (d : Diagnostic) : Prop :=
  ∃ run rest, ts = run ++ rest ∧ Blames d rest ∧ Begun phrase run

variable {phrase inner first : Phrase} {a : first.Tree} {ts us rest run : List Token}
  {d : Diagnostic}

namespace Begun

theorem of_append {run' : List Token} (lexical : Lexical run') (h : Begun phrase (run ++ run')) :
    Begun phrase run := by
  rcases h with ⟨more, lexical', whole⟩
  refine ⟨run' ++ more, lexical.append lexical', fun rest => ?_⟩
  simpa using whole rest

/-- A part stands between tokens of the whole. -/
theorem within (h : Begun inner run) (start finish : List Token) (lexical : Lexical finish)
    (join : ∀ ts tree rest, Derives inner ts tree (finish ++ rest) →
      ∃ whole, Derives phrase (start ++ ts) whole rest) : Begun phrase (start ++ run) := by
  rcases h with ⟨more, lexical', part⟩
  refine ⟨more ++ finish, lexical'.append lexical, fun rest => ?_⟩
  rcases part (finish ++ rest) with ⟨tree, derives⟩
  simpa using join _ tree rest derives

/-- A name is an expression. -/
theorem expr (l : Level) : Begun (.expr l) [] := by
  refine ⟨[.ident "x"], by decide, fun rest => ⟨.name "x", Derives.name.loosen ?_⟩⟩
  cases l <;> decide

theorem block : Begun .block [] :=
  ⟨[.symbol .openBrace, .symbol .closeBrace], by decide, fun _ => ⟨[], .block .noStatements⟩⟩

end Begun

namespace Stuck

/-- The token behind the run is the one to blame. -/
theorem here (run : List Token) (h : Begun phrase run) (blames : Blames d rest) :
    Stuck phrase (run ++ rest) d :=
  ⟨run, rest, rfl, blames, h⟩

/-- A phrase is complete, and what is to blame comes next. -/
theorem behind {tree : phrase.Tree} (h : Derives phrase ts tree rest)
    (blames : Blames d rest) : Stuck phrase ts d := by
  rcases h.run with ⟨run, rfl, whole⟩
  rcases whole.completed with ⟨more, lexical, completed⟩
  exact ⟨run, rest, rfl, blames, more, lexical, fun rest => ⟨tree, completed rest⟩⟩

/-- A part stands between tokens of the whole. -/
theorem within (h : Stuck inner ts d) (start finish : List Token) (lexical : Lexical finish)
    (join : ∀ ts tree rest, Derives inner ts tree (finish ++ rest) →
      ∃ whole, Derives phrase (start ++ ts) whole rest) : Stuck phrase (start ++ ts) d := by
  rcases h with ⟨run, rest, rfl, blames, begun⟩
  exact ⟨start ++ run, rest, by simp, blames, begun.within start finish lexical join⟩

/-- A part stands behind another one, which is complete. -/
theorem after (between : List Token) (h : Derives first ts a (between ++ us))
    (h' : Stuck inner us d) (start finish : List Token) (lexical : Lexical finish)
    (join : ∀ ts us tree rest, Derives first ts a (between ++ us) →
      Derives inner us tree (finish ++ rest) → ∃ whole, Derives phrase (start ++ ts) whole rest) :
    Stuck phrase (start ++ ts) d := by
  rcases h' with ⟨run', rest, rfl, blames, more', lexical', part⟩
  rcases h.run with ⟨run, rfl, complete⟩
  refine ⟨start ++ (run ++ (between ++ run')), rest, by simp, blames, ?_⟩
  cases seen : between ++ run' with
  -- The first part may look at what comes next, unless its own tokens complete it.
  | nil =>
    rcases List.append_eq_nil_iff.1 seen with ⟨rfl, rfl⟩
    rcases complete.completed with ⟨more, lexical'', whole⟩
    refine ⟨more ++ (more' ++ finish), lexical''.append (lexical'.append lexical), fun rest => ?_⟩
    rcases part (finish ++ rest) with ⟨tree, derives⟩
    simpa using join _ _ tree rest (whole _) derives
  | cons t others =>
    refine ⟨more' ++ finish, lexical'.append lexical, fun rest' => ?_⟩
    rcases part (finish ++ rest') with ⟨tree, derives⟩
    have same : headKind (between ++ (run' ++ (more' ++ (finish ++ rest')))) =
        headKind (between ++ (run' ++ rest)) := by
      rw [← List.append_assoc, ← List.append_assoc between, seen]
      rfl
    have whole := join _ _ tree rest' (complete.moved _ same) derives
    rw [← seen]
    simpa using whole

/-- A phrase of a level is a phrase of every looser one. -/
theorem loosen {l m : Level} (le : l ≤ m) (h : Stuck (.expr m) ts d) : Stuck (.expr l) ts d :=
  h.within [] [] (by decide) fun _ _ _ derives => ⟨_, derives.loosen le⟩

end Stuck

end Grammar
end Script
