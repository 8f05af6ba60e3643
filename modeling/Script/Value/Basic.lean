import Script.Table
import Script.Value.Fault

/-!
# Values

Arrays, hashes and functions are objects: each one made has an identity of its own, by which the
language compares it, beside its contents, which never change. A function carries the scope it was
made in.
-/

namespace Script

/-- The identity of an array, a hash or a function. -/
abbrev ObjectId := Nat

/-- The place of a scope in the state. -/
abbrev ScopeId := Nat

/-- What a hash is keyed by: the values that are compared by content. -/
inductive Key
  | int (n : Int64)
  | bool (b : Bool)
  | str (s : String)
  deriving DecidableEq, Repr

/-- A function as it was written, with the scope it was made in. -/
structure Closure where
  params : List String
  body : Block
  scope : ScopeId

inductive Value
  | int (n : Int64)
  | bool (b : Bool)
  | str (s : String)
  | array (id : ObjectId) (elements : List Value)
  | hash (id : ObjectId) (pairs : List (Key × Value))
  | function (id : ObjectId) (closure : Closure)
  | builtin (b : Builtin)
  | null
  /-- A value on its way out of a function. -/
  | returned (v : Value)
  /-- The fault that ended a program. -/
  | error (fault : Fault)

namespace Value

/-! ## Classes of values -/

def type : Value → ValueType
  | int _ => .int
  | bool _ => .bool
  | str _ => .str
  | array .. => .array
  | hash .. => .hash
  | function .. => .function
  | builtin _ => .builtin
  | null => .null
  | returned _ => .returned
  | error _ => .error

/-- Every value but `null` and `false` counts as true. -/
def isTruthy : Value → Bool
  | null | bool false => false
  | _ => true

def isError : Value → Bool
  | error _ => true
  | _ => false

def isReturned : Value → Bool
  | returned _ => true
  | _ => false

/-- Takes a value out of its return marker, once. -/
def unwrap : Value → Value
  | returned v => v
  | v => v

/-- The key a value is, if it can be one. -/
def key? : Value → Option Key
  | int n => some (.int n)
  | bool b => some (.bool b)
  | str s => some (.str s)
  | _ => none

end Value

/-- A key as a value. -/
def Key.toValue : Key → Value
  | int n => .int n
  | bool b => .bool b
  | str s => .str s

/-- The 64-bit word that stands for a key within its type. Strings are keyed by their text. -/
def Key.word? : Key → Option UInt64
  | int n => some n.toUInt64
  | bool b => some b.toUInt64
  | str _ => none

@[simp]
theorem Key.key?_toValue (k : Key) : k.toValue.key? = some k := by
  cases k <;> rfl

theorem Value.toValue_of_key? {v : Value} {k : Key} (h : v.key? = some k) : k.toValue = v := by
  cases v <;> simp_all [Value.key?] <;> subst h <;> rfl

end Script
