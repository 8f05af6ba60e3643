import Script.Program.Basic
import Script.Token.Scan

/-!
# Well-formed trees

The trees that a text can denote: their names are names, their integers carry no sign and their
strings hold no quote. Nothing is asked of how a tree is nested.
-/

namespace Script

/-- A name is a run of word characters that is not reserved. -/
def isName (x : String) : Bool :=
  x.toList ≠ [] && x.toList.all isWordChar && Keyword.ofWord? x = none

mutual

def Expr.wellFormed : Expr → Bool
  | .name x => isName x
  | .int n => 0 ≤ n
  | .str text => '"' ∉ text.toList
  | .bool _ => true
  | .unary _ a => a.wellFormed
  | .binary _ a b => a.wellFormed && b.wellFormed
  | .cond test yes no =>
    test.wellFormed && wellFormedBlock yes &&
      match no with
      | none => true
      | some no => wellFormedBlock no
  | .fn params body => params.all isName && wellFormedBlock body
  | .array elements => wellFormedList elements
  | .index a i => a.wellFormed && i.wellFormed
  | .hash pairs => wellFormedPairs pairs
  | .call callee args => callee.wellFormed && wellFormedList args

def Statement.wellFormed : Statement → Bool
  | .bind x value => isName x && value.wellFormed
  | .leave value | .expr value => value.wellFormed

def wellFormedBlock : Block → Bool
  | [] => true
  | s :: rest => s.wellFormed && wellFormedBlock rest

def wellFormedList : List Expr → Bool
  | [] => true
  | e :: rest => e.wellFormed && wellFormedList rest

def wellFormedPairs : List (Expr × Expr) → Bool
  | [] => true
  | (key, value) :: rest => key.wellFormed && value.wellFormed && wellFormedPairs rest

end

theorem wellFormedBlock_iff {body : Block} :
    wellFormedBlock body = true ↔ ∀ s ∈ body, s.wellFormed = true := by
  induction body with
  | nil => simp [wellFormedBlock]
  | cons s rest ih => simp [wellFormedBlock, ih]

/-- A program all of whose statements a text can denote. -/
def Program.wellFormed (program : Program) : Bool :=
  wellFormedBlock program

end Script
