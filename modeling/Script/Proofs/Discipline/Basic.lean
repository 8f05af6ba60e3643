import Script.Proofs.Eval.Bound
import Script.Proofs.Eval.Origin
import Script.Proofs.Marker.Free

/-!
# Disciplined programs

A program is disciplined if every `return` in it stands where a statement can leave its function: in
the body of the function itself, or in the branches of a condition that is a whole statement or the
whole value of a binding. Conditions may be nested in this way. A `return` inside an operand, an
argument, an element, a key, a test or the value of another `return` is not disciplined, even though
conditions may stand there. Every function in a program is judged on its own.

Beside programs this module classifies values: a value is fit if no return marker stands in it and all
functions in it are disciplined.
-/

namespace Script

/-! ## Programs -/

mutual

/-- Does every `return` in the expression stand well? One that `leaves` the expression stands well
only if the expression is a whole statement or the value of a binding. -/
def Expr.disciplined (leaves : Bool) : Expr → Bool
  | .name _ | .int _ | .str _ | .bool _ => true
  | .unary _ a => a.disciplined false
  | .binary _ a b => a.disciplined false && b.disciplined false
  | .cond test yes no =>
    test.disciplined false && disciplinedBlock leaves yes &&
      match no with
      | none => true
      | some no => disciplinedBlock leaves no
  | .fn _ body => disciplinedBlock true body
  | .array es => disciplinedList es
  | .index a i => a.disciplined false && i.disciplined false
  | .hash ps => disciplinedPairs ps
  | .call f args => f.disciplined false && disciplinedList args

def Statement.disciplined (leaves : Bool) : Statement → Bool
  | .bind _ value | .expr value => value.disciplined leaves
  | .leave value => leaves && value.disciplined false

def disciplinedBlock (leaves : Bool) : Block → Bool
  | [] => true
  | s :: rest => s.disciplined leaves && disciplinedBlock leaves rest

def disciplinedList : List Expr → Bool
  | [] => true
  | e :: rest => e.disciplined false && disciplinedList rest

def disciplinedPairs : List (Expr × Expr) → Bool
  | [] => true
  | (key, value) :: rest =>
    key.disciplined false && value.disciplined false && disciplinedPairs rest

end

/-- A `return` outside all functions leaves the program. -/
def Program.disciplined (program : Program) : Bool :=
  disciplinedBlock true program

def Expr.isCond : Expr → Bool
  | .cond .. => true
  | _ => false

/-- Only a condition can be left. -/
theorem Expr.disciplined_of_isCond {e : Expr} {leaves : Bool} (other : e.isCond = false)
    (h : e.disciplined leaves = true) : e.disciplined false = true := by
  cases e with
  | cond => cases other
  | _ => exact h

theorem Expr.disciplined_cond_iff {leaves : Bool} {test : Expr} {yes : Block} {no : Option Block} :
    (Expr.cond test yes no).disciplined leaves = true ↔
      test.disciplined false = true ∧ disciplinedBlock leaves yes = true ∧
        ∀ block ∈ no, disciplinedBlock leaves block = true := by
  cases no with
  | none => simp [disciplined]
  | some no => simp [disciplined, and_assoc]

theorem disciplinedPairs_cons_iff {key value : Expr} {ps : List (Expr × Expr)} :
    disciplinedPairs ((key, value) :: ps) = true ↔
      key.disciplined false = true ∧ value.disciplined false = true ∧ disciplinedPairs ps = true := by
  simp [disciplinedPairs, and_assoc]

/-! ## Values -/

mutual

/-- No return marker stands in the value, and all functions in it are disciplined. -/
def Value.fit : Value → Bool
  | .array _ vs => fitAll vs
  | .hash _ ps => fitPairs ps
  | .function _ f => disciplinedBlock true f.body
  | .returned _ => false
  | _ => true

def fitAll : List Value → Bool
  | [] => true
  | v :: vs => v.fit && fitAll vs

def fitPairs : List (Key × Value) → Bool
  | [] => true
  | (_, v) :: ps => v.fit && fitPairs ps

end

theorem fitAll_iff {vs : List Value} : fitAll vs = true ↔ ∀ v ∈ vs, v.fit = true := by
  induction vs with
  | nil => simp [fitAll]
  | cons v vs ih => simp [fitAll, ih]

theorem fitPairs_iff {ps : List (Key × Value)} :
    fitPairs ps = true ↔ ∀ p ∈ ps, p.2.fit = true := by
  induction ps with
  | nil => simp [fitPairs]
  | cons p ps ih => simp [fitPairs, ih]

mutual

theorem Value.free_of_fit : ∀ v : Value, v.fit = true → v.free = true
  | .array _ vs, h => freeAll_of_fitAll vs h
  | .hash _ ps, h => freePairs_of_fitPairs ps h
  | .returned _, h => nomatch h
  | .int _, _ | .bool _, _ | .str _, _ | .function .., _ | .builtin _, _ | .null, _ | .error _, _ =>
    rfl

theorem freeAll_of_fitAll : ∀ vs : List Value, fitAll vs = true → freeAll vs = true
  | [], _ => rfl
  | v :: vs, h => by
    rcases Bool.and_eq_true_iff.1 h with ⟨first, others⟩
    exact Bool.and_eq_true_iff.2 ⟨v.free_of_fit first, freeAll_of_fitAll vs others⟩

theorem freePairs_of_fitPairs : ∀ ps : List (Key × Value), fitPairs ps = true → freePairs ps = true
  | [], _ => rfl
  | (_, v) :: ps, h => by
    rcases Bool.and_eq_true_iff.1 h with ⟨first, others⟩
    exact Bool.and_eq_true_iff.2 ⟨v.free_of_fit first, freePairs_of_fitPairs ps others⟩

end

/-- What an expression may give: a fit value, or a marked one on its way out if it may be left. -/
def Value.settled (leaves : Bool) : Value → Bool
  | .returned v => leaves && v.fit
  | v => v.fit

theorem Value.settled_of_fit {leaves : Bool} {v : Value} (h : v.fit = true) :
    v.settled leaves = true := by
  cases v with
  | returned v => cases h
  | _ => exact h

theorem Value.fit_of_settled {leaves : Bool} {v : Value} (h : v.settled leaves = true)
    (unmarked : v.isReturned = false) : v.fit = true := by
  cases v with
  | returned v => cases unmarked
  | _ => exact h

@[simp]
theorem Value.settled_false (v : Value) : v.settled false = v.fit := by
  cases v <;> rfl

theorem Value.fit_unwrap {leaves : Bool} {v : Value} (h : v.settled leaves = true) :
    v.unwrap.fit = true := by
  cases v with
  | returned v => exact (Bool.and_eq_true_iff.1 h).2
  | _ => exact h

/-! ## Where fit values come from -/

theorem Value.fit_of_plain {v : Value} (h : v.isPlain = true) : v.fit = true := by
  cases v with
  | array | hash | function | returned => cases h
  | _ => rfl

theorem Value.fit_of_part {v u : Value} (fit : v.fit = true) (h : u ∈ v.parts) : u.fit = true := by
  cases v with
  | array id vs => exact fitAll_iff.1 fit u h
  | hash id ps =>
    rcases List.mem_map.1 h with ⟨p, here, rfl⟩
    exact fitPairs_iff.1 fit p here
  | _ => cases h

theorem Value.elementAt_fit {v w u : Value} (fit : v.fit = true) (h : v.elementAt w = .ok u) :
    u.fit = true := by
  rcases Value.elementAt_origin h with rfl | part
  · rfl
  · exact Value.fit_of_part fit part

end Script
