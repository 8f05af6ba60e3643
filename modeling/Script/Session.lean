import Script.Program.Parse
import Script.Eval.Expr

/-!
# Sessions

Source texts are run one after another on one state, and what a text binds is there for the next
one. A text that is no program changes nothing.
-/

namespace Script

/-- How deep an evaluation may go before it is cut off. The language knows no such limit: it is one of
this library, for the runs that have to come to an end. -/
def depthLimit : Nat := 100000

/-- What running a source text gives. -/
inductive Answer
  /-- The text is no program. -/
  | rejected (errors : List Diagnostic)
  /-- The program ended, with a value if it has one. -/
  | finished (value : Option Value)

/-- Runs a source text in a scope. -/
def runText (n : Nat) (scope : ScopeId) (source : String) (s : State) : Option (Answer × State) :=
  match Program.parse source with
  | .error errors => some (.rejected errors, s)
  | .ok program =>
    match program.run n scope s with
    | none => none
    | some (value, s') => some (.finished value, s')

/-- What a session shows of an answer: the value's text, or the report on a text that was
refused. -/
def Answer.shown : Answer → Option String
  | .rejected errors => some (errorReport errors)
  | .finished value => value.map Value.text

/-- Runs a line and prints what there is to show. -/
def enterLine (n : Nat) (scope : ScopeId) (line : String) (s : State) : Option State :=
  match runText n scope line s with
  | none => none
  | some (answer, s') =>
    match answer.shown with
    | none => some s'
    | some text => some (s'.printLine text)

end Script
