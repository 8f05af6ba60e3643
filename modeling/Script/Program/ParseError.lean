import Script.Token.Basic

/-!
# Parse errors

Why a text is no program. Each error names the kind of the token that does not fit; a diagnostic
adds where that token stands.
-/

namespace Script

inductive ParseError
  /-- One particular kind had to come next, and another one did. -/
  | unexpected (expected found : TokenKind)
  /-- An expression had to start here, and none starts with such a token. -/
  | noOperand (found : TokenKind)
  /-- The digits denote a number that is no integer of the language. -/
  | outOfRange (digits : String)
  deriving DecidableEq, Repr

def ParseError.message : ParseError → String
  | .unexpected expected found =>
    "expected next token to be " ++ expected.label ++ ", got " ++ found.label ++ " instead"
  | .noOperand found => "no prefix parse function for " ++ found.label
  | .outOfRange digits => "could not parse " ++ digits ++ " as integer"

/-! ## Diagnostics -/

/-- An error and its place, which is counted from the end of the input: how many tokens are left from
the one that does not fit, itself included. It is 0 if the input ends too soon. -/
structure Diagnostic where
  error : ParseError
  ahead : Nat
  deriving DecidableEq, Repr

/-- The diagnostic of an error that was met with the cursor at `ts`. A token that had to be another
comes next; one that starts no expression, and one that is out of range, is at the cursor. -/
def ParseError.locate (e : ParseError) (ts : List Token) : Diagnostic :=
  match e with
  | .unexpected .. => ⟨e, ts.tail.length⟩
  | .noOperand _ | .outOfRange _ => ⟨e, ts.length⟩

def Diagnostic.message (d : Diagnostic) : String :=
  d.error.message

/-- The messages, one to a line. -/
def errorLines (errors : List Diagnostic) : String :=
  "\n".intercalate (errors.map Diagnostic.message)

/-- The report on a text that was refused: a heading, then an indented line for each error. -/
def errorReport (errors : List Diagnostic) : String :=
  "parser errors:" ++ String.join (errors.map fun e => "\n\t" ++ e.message)

end Script
