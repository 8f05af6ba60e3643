import Script.Value.Basic

/-!
# State

What an evaluation can change: the scopes, the supply of identities for new objects, and the text
printed so far. A scope binds names to values and may lie in an outer scope, whose names it sees.
Scopes are never removed, since a function may still need the one it was made in.
-/

namespace Script

structure Scope where
  bindings : Table String Value
  outer : Option ScopeId

structure State where
  scopes : Array Scope
  /-- The identity of the next object. -/
  fresh : ObjectId
  /-- What was printed so far. -/
  printed : String

namespace State

/-- One scope without names, and nothing else. -/
def initial : State :=
  ⟨#[⟨[], none⟩], 0, ""⟩

/-- The scope that the initial state has. -/
def root : ScopeId := 0

/-! ## Scopes -/

/-- The value of a name as seen from a scope: the one bound there, or else the one seen from the
outer scope. A scope always lies in one that was there before, and only such a link is followed. -/
def lookup (s : State) (x : String) (scope : ScopeId) : Option Value :=
  match s.scopes[scope]? with
  | none => none
  | some here =>
    match here.bindings.get? x with
    | some v => some v
    | none =>
      match here.outer with
      | none => none
      | some outer => if outer < scope then s.lookup x outer else none
termination_by scope

/-- Binds a name in a scope; scopes around it are left alone. -/
def bind (s : State) (scope : ScopeId) (x : String) (v : Value) : State :=
  { s with
    scopes := s.scopes.modify scope fun here => { here with bindings := here.bindings.insert x v } }

/-- Adds a scope. -/
def addScope (s : State) (scope : Scope) : ScopeId × State :=
  (s.scopes.size, { s with scopes := s.scopes.push scope })

/-- Adds a scope without names that lies in `outer`. -/
def enclose (s : State) (outer : ScopeId) : ScopeId × State :=
  s.addScope ⟨[], some outer⟩

/-! ## Objects and output -/

/-- Uses up an identity. -/
def useFresh (s : State) : State :=
  { s with fresh := s.fresh + 1 }

/-- Prints a line. -/
def printLine (s : State) (line : String) : State :=
  { s with printed := s.printed ++ line ++ "\n" }

/-- Forgets what was printed so far. -/
def clearPrinted (s : State) : State :=
  { s with printed := "" }

end State
end Script
