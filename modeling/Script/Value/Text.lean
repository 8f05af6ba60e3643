import Script.Program.Text
import Script.Value.Basic

/-!
# The text of a value

What `puts` prints and a session shows. Strings stand without quotes, a function as its parameters
and the canonical text of its body, a value on its way out of a function as itself.
-/

namespace Script

/-- The text of a function. -/
def Closure.render (f : Closure) : List Char :=
  (Expr.fn f.params f.body).render

/-- The text of a key. -/
def Key.render : Key → List Char
  | int n => Integer.text n
  | bool b => (toString b).toList
  | str s => s.toList

namespace Value

mutual

/-- The text of a value. -/
def render : Value → List Char
  | int n => Integer.text n
  | bool b => (toString b).toList
  | str s => s.toList
  | array _ elements => '[' :: commaSeparated (renderAll elements) ++ [']']
  | hash _ pairs => '\x7b' :: commaSeparated (renderPairs pairs) ++ ['\x7d']
  | function _ closure => closure.render
  | builtin _ => "builtin function".toList
  | null => "null".toList
  | returned v => render v
  | error fault => "ERROR: ".toList ++ fault.message.toList

/-- The texts of the values, one by one. -/
def renderAll : List Value → List (List Char)
  | [] => []
  | v :: vs => render v :: renderAll vs

/-- The texts of the pairs, one by one: a key, a colon and a value. -/
def renderPairs : Table Key Value → List (List Char)
  | [] => []
  | (k, v) :: rest => (k.render ++ ':' :: ' ' :: render v) :: renderPairs rest

end

theorem render_array (id : ObjectId) (elements : List Value) :
    (array id elements).render = '[' :: commaSeparated (renderAll elements) ++ [']'] := rfl

theorem render_hash (id : ObjectId) (pairs : Table Key Value) :
    (hash id pairs).render = '\x7b' :: commaSeparated (renderPairs pairs) ++ ['\x7d'] := rfl

theorem render_returned (v : Value) : (returned v).render = v.render := rfl

theorem renderAll_eq_map (vs : List Value) : renderAll vs = vs.map render := by
  induction vs with
  | nil => rfl
  | cons v vs ih => simp [renderAll, ih]

theorem renderPairs_eq_map (ps : Table Key Value) :
    renderPairs ps = ps.map fun p => p.1.render ++ ':' :: ' ' :: p.2.render := by
  induction ps with
  | nil => rfl
  | cons p ps ih => simp [renderPairs, ih]

/-- The text of a value. -/
def text (v : Value) : String :=
  String.ofList v.render

end Value
end Script
