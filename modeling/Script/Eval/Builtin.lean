import Script.Integer
import Script.Value.Text
import Script.Eval.Basic

/-!
# Built-in functions

Each built-in function checks its own arguments; `call` checks their number first.
-/

namespace Script
namespace Builtin

/-! ## Arguments -/

/-- The only argument. -/
def single : List Value → Except Fault Value
  | [v] => .ok v
  | args => .error (.argumentCount args.length 1)

/-- The elements of the array that a built-in function takes. -/
def elements (b : Builtin) : Value → Except Fault (List Value)
  | .array _ vs => .ok vs
  | v => .error (.wrongArgument b .array v.type)

/-! ## The functions -/

/-- How many characters a string has, or how many elements an array has. -/
def length : Value → Except Fault Value
  | .str s => .ok (.int (Integer.ofLength s.length))
  | .array _ vs => .ok (.int (Integer.ofLength vs.length))
  | v => .error (.unsupportedArgument .len v.type)

/-- Prints the text of each value on a line of its own. -/
def printAll : List Value → Eval Unit
  | [] => pure ()
  | v :: vs => do
    Eval.printLine v.text
    printAll vs

/-- What a built-in function makes of its arguments. -/
def run : Builtin → List Value → Eval Value
  | .len, args => do
    let v ← Eval.ofExcept (single args)
    Eval.ofExcept (length v)
  | .first, args => do
    let v ← Eval.ofExcept (single args)
    let vs ← Eval.ofExcept (elements .first v)
    pure (vs.head?.getD .null)
  | .last, args => do
    let v ← Eval.ofExcept (single args)
    let vs ← Eval.ofExcept (elements .last v)
    pure (vs.getLast?.getD .null)
  | .rest, args => do
    let v ← Eval.ofExcept (single args)
    match ← Eval.ofExcept (elements .rest v) with
    | [] => pure .null
    | _ :: vs => Eval.newArray vs
  | .push, [v, item] => do
    let vs ← Eval.ofExcept (elements .push v)
    Eval.newArray (vs ++ [item])
  | .push, args => Eval.fail (.argumentCount args.length 2)
  | .puts, args => do
    printAll args
    pure .null

/-- Is the number of arguments one that the function takes? -/
def checkArity (b : Builtin) (count : Nat) : Except Fault Unit :=
  match b.arity with
  | none => .ok ()
  | some want => if count = want then .ok () else .error (.argumentCount count want)

/-- Calls a built-in function. -/
def call (b : Builtin) (args : List Value) : Eval Value := do
  Eval.ofExcept (b.checkArity args.length)
  b.run args

end Builtin
end Script
