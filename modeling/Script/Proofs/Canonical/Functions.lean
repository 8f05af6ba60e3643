import Script.Proofs.Canonical.Parsed
import Script.Value.Basic

/-!
# The functions of a program

The functions that are written in a program, at any depth. In a text that was read each of them is
well-formed by itself, so its own text denotes it.
-/

namespace Script

mutual

/-- The functions written in the expression: their parameters and their bodies. -/
def Expr.functions : Expr → List (List String × Block)
  | .name _ | .int _ | .str _ | .bool _ => []
  | .unary _ a => a.functions
  | .binary _ a b => a.functions ++ b.functions
  | .cond test yes none => test.functions ++ blockFunctions yes
  | .cond test yes (some no) => test.functions ++ blockFunctions yes ++ blockFunctions no
  | .fn params body => (params, body) :: blockFunctions body
  | .array es => listFunctions es
  | .index a i => a.functions ++ i.functions
  | .hash ps => pairFunctions ps
  | .call f args => f.functions ++ listFunctions args

def Statement.functions : Statement → List (List String × Block)
  | .bind _ value | .leave value | .expr value => value.functions

def blockFunctions : Block → List (List String × Block)
  | [] => []
  | s :: rest => s.functions ++ blockFunctions rest

def listFunctions : List Expr → List (List String × Block)
  | [] => []
  | e :: rest => e.functions ++ listFunctions rest

def pairFunctions : List (Expr × Expr) → List (List String × Block)
  | [] => []
  | (key, value) :: rest => key.functions ++ value.functions ++ pairFunctions rest

end

/-- The functions written in the program. -/
def Program.functions (program : Program) : List (List String × Block) :=
  blockFunctions program

/-- A function that a text can denote. -/
def FitsText (f : List String × Block) : Prop :=
  (Expr.fn f.1 f.2).wellFormed = true

mutual

theorem Expr.functions_fit : (e : Expr) → e.wellFormed = true → ∀ f ∈ e.functions, FitsText f
  | .name _, _ | .int _, _ | .str _, _ | .bool _, _ => List.forall_mem_nil _
  | .unary _ a, wf => a.functions_fit wf
  | .binary _ a b, wf => by
    rcases Bool.and_eq_true_iff.1 wf with ⟨left, right⟩
    exact List.forall_mem_append.2 ⟨a.functions_fit left, b.functions_fit right⟩
  | .cond test yes none, wf => by
    simp only [Expr.wellFormed, Bool.and_true, Bool.and_eq_true] at wf
    exact List.forall_mem_append.2 ⟨test.functions_fit wf.1, blockFunctions_fit yes wf.2⟩
  | .cond test yes (some no), wf => by
    simp only [Expr.wellFormed, Bool.and_eq_true] at wf
    refine List.forall_mem_append.2 ⟨?_, blockFunctions_fit no wf.2⟩
    exact List.forall_mem_append.2 ⟨test.functions_fit wf.1.1, blockFunctions_fit yes wf.1.2⟩
  | .fn params body, wf => by
    rcases Bool.and_eq_true_iff.1 wf with ⟨-, inner⟩
    exact List.forall_mem_cons.2 ⟨wf, blockFunctions_fit body inner⟩
  | .array es, wf => listFunctions_fit es wf
  | .index a i, wf => by
    rcases Bool.and_eq_true_iff.1 wf with ⟨left, right⟩
    exact List.forall_mem_append.2 ⟨a.functions_fit left, i.functions_fit right⟩
  | .hash ps, wf => pairFunctions_fit ps wf
  | .call f args, wf => by
    rcases Bool.and_eq_true_iff.1 wf with ⟨left, right⟩
    exact List.forall_mem_append.2 ⟨f.functions_fit left, listFunctions_fit args right⟩

theorem Statement.functions_fit :
    (s : Statement) → s.wellFormed = true → ∀ f ∈ s.functions, FitsText f
  | .bind _ value, wf => value.functions_fit (Bool.and_eq_true_iff.1 wf).2
  | .leave value, wf | .expr value, wf => value.functions_fit wf

theorem blockFunctions_fit :
    (body : Block) → wellFormedBlock body = true → ∀ f ∈ blockFunctions body, FitsText f
  | [], _ => List.forall_mem_nil _
  | s :: rest, wf => by
    rcases Bool.and_eq_true_iff.1 wf with ⟨first, others⟩
    exact List.forall_mem_append.2 ⟨s.functions_fit first, blockFunctions_fit rest others⟩

theorem listFunctions_fit :
    (es : List Expr) → wellFormedList es = true → ∀ f ∈ listFunctions es, FitsText f
  | [], _ => List.forall_mem_nil _
  | e :: rest, wf => by
    rcases Bool.and_eq_true_iff.1 wf with ⟨first, others⟩
    exact List.forall_mem_append.2 ⟨e.functions_fit first, listFunctions_fit rest others⟩

theorem pairFunctions_fit :
    (ps : List (Expr × Expr)) → wellFormedPairs ps = true → ∀ f ∈ pairFunctions ps, FitsText f
  | [], _ => List.forall_mem_nil _
  | (key, value) :: rest, wf => by
    simp only [wellFormedPairs, Bool.and_eq_true] at wf
    refine List.forall_mem_append.2 ⟨?_, pairFunctions_fit rest wf.2⟩
    exact List.forall_mem_append.2 ⟨key.functions_fit wf.1.1, value.functions_fit wf.1.2⟩

end

/-- The function is written in a text that is a program. -/
def Closure.Written (f : Closure) : Prop :=
  ∃ source program, Program.parse source = .ok program ∧ (f.params, f.body) ∈ program.functions

theorem Closure.Written.wellFormed {f : Closure} (written : f.Written) :
    (Expr.fn f.params f.body).wellFormed = true := by
  rcases written with ⟨source, program, parsed, here⟩
  exact blockFunctions_fit program (Program.wellFormed_of_parse parsed) _ here

end Script
