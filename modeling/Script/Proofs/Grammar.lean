import Script.Proofs.Grammar.Complete
import Script.Proofs.Grammar.Sound

/-!
# The language of the parser

The parser accepts the texts whose tokens derive a program, and builds the program they derive.
-/

namespace Script

open Grammar

/-- Tokens that derive a program are read as that program, without errors. -/
theorem Draft.ofTokens_of_derives {ts : List Token} {program : Program}
    (h : Derives .statements ts program []) : Draft.ofTokens ts = ⟨program, []⟩ := by
  have read := (Parse.reads_of_derives h).2 (by simp)
  have nothing : Draft.ofTokens [] = ⟨[], []⟩ := by rw [Draft.ofTokens]
  rw [nothing] at read
  simpa using read

/-- A text whose tokens derive a program is accepted as that program. -/
theorem Program.parse_of_derives {source : String} {program : Program}
    (h : Derives .statements (tokens source.toList) program []) :
    Program.parse source = .ok program := by
  unfold Program.parse Draft.ofText
  simp [Draft.ofTokens_of_derives h]

/-- The tokens of an accepted text derive the program that the text is accepted as. -/
theorem Program.derives_of_parse {source : String} {program : Program}
    (h : Program.parse source = .ok program) :
    Derives .statements (tokens source.toList) program [] := by
  simp only [Program.parse] at h
  split at h
  case isTrue clean =>
    have derives := Draft.derives_of_errors (List.isEmpty_iff.1 clean)
    cases h
    exact derives
  case isFalse => cases h

/-- A text is accepted as a program just when its tokens derive the program. -/
theorem Program.parse_eq_ok_iff (source : String) (program : Program) :
    Program.parse source = .ok program ↔
      Derives .statements (tokens source.toList) program [] :=
  ⟨Program.derives_of_parse, Program.parse_of_derives⟩

/-- No token list is a program in two ways. -/
theorem Grammar.derives_unique {ts : List Token} {p q : Program}
    (first : Derives .statements ts p []) (second : Derives .statements ts q []) : p = q := by
  have same : (⟨p, []⟩ : Draft) = ⟨q, []⟩ :=
    calc (⟨p, []⟩ : Draft)
      _ = Draft.ofTokens ts := (Draft.ofTokens_of_derives first).symm
      _ = ⟨q, []⟩ := Draft.ofTokens_of_derives second
  exact (Draft.mk.inj same).1

end Script
