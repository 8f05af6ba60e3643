import Script.Proofs.Canonical.Writes
import Script.Proofs.Token.Lexical

/-!
# Texts of tokens

Every list of tokens that a text can have is the list of tokens of some text, for instance of the one
that has them with spaces between them.
-/

namespace Script

/-- The text that is read as the token: a string has its quotes again. -/
def Token.source : Token → List Char
  | .illegal c => [c]
  | .ident name => name.toList
  | .int digits => digits.toList
  | .str text => '"' :: text.toList ++ ['"']
  | .symbol s => s.text.toList
  | .keyword k => k.text.toList

namespace Spells

theorem ofSymbol (s : Symbol) : Spells s.text.toList [.symbol s] := by
  cases s with
  | assign => exact assign
  | equal => exact binaryOp .equal
  | notEqual => exact binaryOp .notEqual
  | bang => exact unaryOp .not
  | _ => exact symbol _ _ (by decide) nil

/-- A character that nothing else starts with. -/
theorem illegal {c : Char} (h : (Token.illegal c).isLexical = true) : Spells [c] [.illegal c] := by
  simp only [Token.isLexical, Bool.and_eq_true, Bool.not_eq_true', Option.isNone_iff_eq_none,
    decide_eq_true_eq] at h
  rcases h with ⟨⟨⟨⟨notBlank, word⟩, digit⟩, quote⟩, noSymbol⟩
  have stays : [c].dropWhile isBlank = [c] := List.dropWhile_cons_of_neg (by simp [notBlank])
  refine ⟨Closed.of_notMem (by simpa using Ne.symm quote), ?_⟩
  rw [tokens_of_lexeme stays, lexeme_of_single word digit quote (by simp), noSymbol,
    tokens_of_blank rfl]
  rfl

theorem token {t : Token} (h : t.isLexical = true) : Spells t.source [t] := by
  cases t with
  | illegal c => exact illegal h
  | ident x => exact name h
  | int digits =>
    simp only [Token.isLexical, Bool.and_eq_true, decide_eq_true_eq, List.all_eq_true] at h
    have spelled := number h.1 h.2
    rwa [String.ofList_toList] at spelled
  | str text =>
    have spelled := str (of_decide_eq_true h)
    rwa [String.ofList_toList] at spelled
  | symbol s => exact ofSymbol s
  | keyword k => exact keyword k

end Spells

theorem exists_tokens_eq {ts : List Token} (h : Lexical ts) : ∃ s, Spells s ts := by
  induction ts with
  | nil => exact ⟨[], Spells.nil⟩
  | cons t ts ih =>
    have first := Spells.token (h t List.mem_cons_self)
    rcases ih h.tail with ⟨others, second⟩
    exact ⟨t.source ++ ' ' :: others, first.before (by decide) second.space⟩

end Script
