import Script.Program.Basic

/-!
# Equality of programs

Whether two trees are the same is decided node by node.
-/

namespace Script

/-! ## Comparison -/

mutual

/-- Are the two expressions the same tree? -/
def Expr.same : Expr → Expr → Bool
  | .name x, .name y => x = y
  | .int m, .int n => m = n
  | .str s, .str t => s = t
  | .bool b, .bool c => b = c
  | .unary f a, .unary g b => f = g && a.same b
  | .binary f a c, .binary g b d => f = g && a.same b && c.same d
  | .cond a s none, .cond b t none => a.same b && sameBlock s t
  | .cond a s (some u), .cond b t (some v) => a.same b && sameBlock s t && sameBlock u v
  | .fn xs s, .fn ys t => xs = ys && sameBlock s t
  | .array xs, .array ys => sameList xs ys
  | .index a i, .index b j => a.same b && i.same j
  | .hash ps, .hash qs => samePairs ps qs
  | .call f xs, .call g ys => f.same g && sameList xs ys
  | _, _ => false

def Statement.same : Statement → Statement → Bool
  | .bind x a, .bind y b => x = y && a.same b
  | .leave a, .leave b => a.same b
  | .expr a, .expr b => a.same b
  | _, _ => false

def sameBlock : Block → Block → Bool
  | [], [] => true
  | s :: ss, t :: ts => s.same t && sameBlock ss ts
  | _, _ => false

def sameList : List Expr → List Expr → Bool
  | [], [] => true
  | x :: xs, y :: ys => x.same y && sameList xs ys
  | _, _ => false

def samePairs : List (Expr × Expr) → List (Expr × Expr) → Bool
  | [], [] => true
  | (j, v) :: ps, (k, w) :: qs => j.same k && v.same w && samePairs ps qs
  | _, _ => false

end

/-! ## It decides equality -/

mutual

theorem Expr.same_iff : ∀ a b : Expr, a.same b = true ↔ a = b
  | .name _, b => by cases b <;> simp [Expr.same]
  | .int _, b => by cases b <;> simp [Expr.same]
  | .str _, b => by cases b <;> simp [Expr.same]
  | .bool _, b => by cases b <;> simp [Expr.same]
  | .unary _ a, b => by cases b <;> simp [Expr.same, Expr.same_iff a]
  | .binary _ l r, b => by
    cases b <;> simp [Expr.same, Expr.same_iff l, Expr.same_iff r, and_assoc]
  | .cond a s none, b => by
    cases b with
    | cond _ _ no => cases no <;> simp [Expr.same, Expr.same_iff a, sameBlock_iff s]
    | _ => simp [Expr.same]
  | .cond a s (some u), b => by
    cases b with
    | cond _ _ no =>
      cases no <;> simp [Expr.same, Expr.same_iff a, sameBlock_iff s, sameBlock_iff u, and_assoc]
    | _ => simp [Expr.same]
  | .fn _ s, b => by cases b <;> simp [Expr.same, sameBlock_iff s]
  | .array xs, b => by cases b <;> simp [Expr.same, sameList_iff xs]
  | .index a i, b => by cases b <;> simp [Expr.same, Expr.same_iff a, Expr.same_iff i]
  | .hash ps, b => by cases b <;> simp [Expr.same, samePairs_iff ps]
  | .call f xs, b => by cases b <;> simp [Expr.same, Expr.same_iff f, sameList_iff xs]

theorem Statement.same_iff : ∀ s t : Statement, s.same t = true ↔ s = t
  | .bind _ a, t => by cases t <;> simp [Statement.same, Expr.same_iff a]
  | .leave a, t => by cases t <;> simp [Statement.same, Expr.same_iff a]
  | .expr a, t => by cases t <;> simp [Statement.same, Expr.same_iff a]

theorem sameBlock_iff : ∀ ss ts : Block, sameBlock ss ts = true ↔ ss = ts
  | [], ts => by cases ts <;> simp [sameBlock]
  | s :: ss, ts => by cases ts <;> simp [sameBlock, Statement.same_iff s, sameBlock_iff ss]

theorem sameList_iff : ∀ xs ys : List Expr, sameList xs ys = true ↔ xs = ys
  | [], ys => by cases ys <;> simp [sameList]
  | x :: xs, ys => by cases ys <;> simp [sameList, Expr.same_iff x, sameList_iff xs]

theorem samePairs_iff : ∀ ps qs : List (Expr × Expr), samePairs ps qs = true ↔ ps = qs
  | [], qs => by cases qs <;> simp [samePairs]
  | (k, v) :: ps, qs => by
    cases qs with
    | nil => simp [samePairs]
    | cons q qs =>
      obtain ⟨j, w⟩ := q
      simp [samePairs, Expr.same_iff k, Expr.same_iff v, samePairs_iff ps, and_assoc]

end

instance : DecidableEq Expr := fun a b => decidable_of_iff _ (Expr.same_iff a b)

instance : DecidableEq Statement := fun s t => decidable_of_iff _ (Statement.same_iff s t)

end Script
