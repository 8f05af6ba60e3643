import Script.Program.Basic

/-!
# Faults

The types of values, the built-in functions, and the faults that end an evaluation. A fault carries
what its message names, never the message itself.
-/

namespace Script

/-! ## Types of values -/

inductive ValueType
  | int
  | bool
  | str
  | array
  | hash
  | function
  | builtin
  | null
  /-- A value on its way out of a function. -/
  | returned
  | error
  deriving DecidableEq, Repr

def ValueType.label : ValueType → String
  | .int => "INTEGER"
  | .bool => "BOOLEAN"
  | .str => "STRING"
  | .array => "ARRAY"
  | .hash => "HASH"
  | .function => "FUNCTION"
  | .builtin => "BUILTIN"
  | .null => "NULL"
  | .returned => "RETURN_VALUE"
  | .error => "ERROR"

def ValueType.all : List ValueType :=
  [.int, .bool, .str, .array, .hash, .function, .builtin, .null, .returned, .error]

/-- The type with the given label. -/
def ValueType.ofLabel? (label : String) : Option ValueType :=
  all.find? fun t => t.label = label

/-! ## Built-in functions -/

inductive Builtin
  | len
  | first
  | last
  | rest
  | push
  | puts
  deriving DecidableEq, Repr

def Builtin.name : Builtin → String
  | .len => "len"
  | .first => "first"
  | .last => "last"
  | .rest => "rest"
  | .push => "push"
  | .puts => "puts"

/-- The built-in functions in their order. -/
def Builtin.all : List Builtin :=
  [.len, .first, .last, .rest, .push, .puts]

/-- The built-in function of that name. -/
def Builtin.ofName? (name : String) : Option Builtin :=
  all.find? fun b => b.name = name

/-- The place of a built-in function in the order. -/
def Builtin.place (b : Builtin) : Nat :=
  all.idxOf b

/-- How many arguments a built-in function takes; `none` if any number will do. -/
def Builtin.arity : Builtin → Option Nat
  | .len | .first | .last | .rest => some 1
  | .push => some 2
  | .puts => none

theorem Builtin.ofName?_name (b : Builtin) : ofName? b.name = some b := by
  cases b <;> decide

/-! ## Faults -/

inductive Fault
  /-- A unary operator has no meaning for operands of this type. -/
  | unknownUnary (op : UnaryOp) (operand : ValueType)
  /-- A binary operator has no meaning for operands of these types. -/
  | unknownBinary (left : ValueType) (op : BinaryOp) (right : ValueType)
  /-- The operands of a binary operator are of different types. -/
  | typeMismatch (left : ValueType) (op : BinaryOp) (right : ValueType)
  /-- A name is bound in no enclosing scope, nor is it a built-in function. -/
  | unbound (name : String)
  /-- Only functions can be called. -/
  | notCallable (type : ValueType)
  /-- Values of this type have no elements. -/
  | notIndexable (type : ValueType)
  /-- Values of this type cannot be keys of a hash. -/
  | unusableKey (type : ValueType)
  | divisionByZero
  /-- A built-in function got another number of arguments than it takes. -/
  | argumentCount (got want : Nat)
  /-- A built-in function has no meaning for an argument of this type. -/
  | unsupportedArgument (builtin : Builtin) (type : ValueType)
  /-- A built-in function takes an argument of one type only. -/
  | wrongArgument (builtin : Builtin) (expected got : ValueType)
  deriving DecidableEq, Repr

def Fault.message : Fault → String
  | .unknownUnary op operand => "unknown operator: " ++ op.text ++ operand.label
  | .unknownBinary left op right =>
    "unknown operator: " ++ left.label ++ " " ++ op.text ++ " " ++ right.label
  | .typeMismatch left op right =>
    "type mismatch: " ++ left.label ++ " " ++ op.text ++ " " ++ right.label
  | .unbound name => "identifier not found: " ++ name
  | .notCallable type => "not a function: " ++ type.label
  | .notIndexable type => "index operator not supported: " ++ type.label
  | .unusableKey type => "unusable as hash key: " ++ type.label
  | .divisionByZero => "division by zero"
  | .argumentCount got want =>
    "wrong number of arguments. got=" ++ toString got ++ ", want=" ++ toString want
  | .unsupportedArgument builtin type =>
    "argument to \x60" ++ builtin.name ++ "\x60 not supported, got " ++ type.label
  | .wrongArgument builtin expected got =>
    "argument to \x60" ++ builtin.name ++ "\x60 must be " ++ expected.label ++ ", got " ++ got.label

end Script
