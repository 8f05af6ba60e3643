import Script.Proofs.Eval.Extends

/-!
# The history of scopes

Scopes come about by three operations: a new scope is made, alone or inside another one, and a name is
set in a scope. `History ops s` says that the operations, each on scopes that are there by then, lead
to the scopes of the state `s`. What can be known of the scopes is then told from the operations alone:
which scope lies in which (`Chain`), and to what a name was set last (`LastSet`).
-/

namespace Script

/-! ## Operations -/

inductive ScopeOp
  /-- A scope that lies in no other. -/
  | new
  | enclose (outer : ScopeId)
  | set (scope : ScopeId) (x : String) (v : Value)

/-- The state after the operation. -/
def State.perform (s : State) : ScopeOp → State
  | .new => (s.addScope ⟨[], none⟩).2
  | .enclose outer => (s.enclose outer).2
  | .set scope x v => s.bind scope x v

/-- Is the operation on one of the first `size` scopes? -/
def ScopeOp.IsOn (size : Nat) : ScopeOp → Prop
  | .new => True
  | .enclose outer => outer < size
  | .set scope _ _ => scope < size

/-- No scope has been made. -/
def State.bare : State :=
  ⟨#[], 0, ""⟩

/-- The operations have been performed one after another, from the beginning. -/
inductive History : List ScopeOp → State → Prop
  | nil : History [] .bare
  | snoc {ops : List ScopeOp} {s : State} {op : ScopeOp} : History ops s → op.IsOn s.scopes.size →
      History (ops ++ [op]) (s.perform op)

/-! ## What the operations tell -/

/-- The link of the scope that the operation makes, if it makes one. -/
def ScopeOp.link? : ScopeOp → Option (Option ScopeId)
  | .new => some none
  | .enclose outer => some (some outer)
  | .set .. => none

/-- The links of the scopes, in the order in which these were made. -/
def links (ops : List ScopeOp) : List (Option ScopeId) :=
  ops.filterMap ScopeOp.link?

/-- The scopes from `i` outward, by their links. -/
inductive Chain (outer : List (Option ScopeId)) : ScopeId → List ScopeId → Prop
  | outermost {i : ScopeId} : outer[i]? = some none → Chain outer i [i]
  | inside {i j : ScopeId} {js : List ScopeId} : outer[i]? = some (some j) → Chain outer j js →
      Chain outer i (i :: js)

/-- The name was never set in the scope. -/
def NeverSet (ops : List ScopeOp) (i : ScopeId) (x : String) : Prop :=
  ∀ v, ScopeOp.set i x v ∉ ops

/-- When the name was set in the scope for the last time, it was to `v`. -/
def LastSet (ops : List ScopeOp) (i : ScopeId) (x : String) (v : Value) : Prop :=
  ∃ before after, ops = before ++ .set i x v :: after ∧ NeverSet after i x

/-- The scope `t` lies on the chain, and the name was never set in a scope before it. -/
def Unshadowed (ops : List ScopeOp) (x : String) (chain : List ScopeId) (t : ScopeId) : Prop :=
  ∃ near far, chain = near ++ t :: far ∧ ∀ j ∈ near, NeverSet ops j x

/-! ## One more operation -/

variable {ops : List ScopeOp} {op : ScopeOp} {s : State} {i j t : ScopeId} {js : List ScopeId}
  {x y : String} {v w : Value}

theorem NeverSet.snoc (never : NeverSet ops i x) (other : ∀ v, op ≠ .set i x v) :
    NeverSet (ops ++ [op]) i x := by
  intro v there
  rcases List.mem_append.1 there with before | last
  · exact never v before
  · exact other v (List.mem_singleton.1 last).symm

theorem LastSet.snoc (set : LastSet ops i x v) (other : ∀ v, op ≠ .set i x v) :
    LastSet (ops ++ [op]) i x v := by
  rcases set with ⟨before, after, rfl, never⟩
  exact ⟨before, after ++ [op], by simp, never.snoc other⟩

theorem LastSet.self (ops : List ScopeOp) (i : ScopeId) (x : String) (v : Value) :
    LastSet (ops ++ [.set i x v]) i x v :=
  ⟨ops, [], rfl, nofun⟩

theorem LastSet.not_neverSet (set : LastSet ops i x v) : ¬ NeverSet ops i x := by
  rcases set with ⟨before, after, rfl, -⟩
  exact fun never => never v (by simp)

theorem LastSet.unique (first : LastSet ops i x v) (second : LastSet ops i x w) : v = w := by
  rcases first with ⟨before, after, rfl, never⟩
  rcases second with ⟨before', after', same, never'⟩
  -- If the one had come before the other, it would not have been the last.
  rcases List.append_eq_append_iff.1 same with ⟨between, -, rest⟩ | ⟨between, -, rest⟩
  · rcases List.cons_eq_append_iff.1 rest with ⟨-, here⟩ | ⟨later, -, here⟩
    · cases here
      rfl
    · exact absurd (here ▸ by simp) (never w)
  · rcases List.cons_eq_append_iff.1 rest with ⟨-, here⟩ | ⟨later, -, here⟩
    · cases here
      rfl
    · exact absurd (here ▸ by simp) (never' v)

theorem links_snoc (ops : List ScopeOp) (op : ScopeOp) :
    links (ops ++ [op]) = links ops ++ op.link?.toList := by
  unfold links
  rw [List.filterMap_append]
  cases op <;> rfl

/-! ## Chains -/

/-- A chain begins with its own scope. -/
theorem Chain.exists_cons {outer : List (Option ScopeId)} (chain : Chain outer i js) :
    ∃ ks, js = i :: ks := by
  cases chain with
  | outermost => exact ⟨[], rfl⟩
  | inside => exact ⟨_, rfl⟩

theorem Chain.unique {outer : List (Option ScopeId)} {ks : List ScopeId} (first : Chain outer i js)
    (second : Chain outer i ks) : js = ks := by
  induction first generalizing ks with
  | outermost link =>
    cases second with
    | outermost => rfl
    | inside link' => cases link.symm.trans link'
  | inside link _ ih =>
    cases second with
    | outermost link' => cases link.symm.trans link'
    | inside link' rest =>
      cases link.symm.trans link'
      rw [ih rest]

/-- Where links lead to scopes made earlier, a chain goes down from where it begins. -/
theorem Chain.descends {outer : List (Option ScopeId)}
    (earlier : ∀ i j : ScopeId, outer[i]? = some (some j) → j < i) (chain : Chain outer i js) :
    js.Pairwise (· > ·) ∧ ∀ j ∈ js, j ≤ i := by
  induction chain with
  | @outermost i link =>
    exact ⟨List.pairwise_singleton _ _, List.forall_mem_singleton.2 (Nat.le_refl i)⟩
  | @inside i j js link _ ih =>
    have below : ∀ k ∈ js, k < i := fun k here =>
      Nat.lt_of_le_of_lt (ih.2 k here) (earlier i j link)
    exact ⟨List.pairwise_cons.2 ⟨below, ih.1⟩,
      List.forall_mem_cons.2 ⟨Nat.le_refl i, fun k here => Nat.le_of_lt (below k here)⟩⟩

/-- Then there is a chain from each scope. -/
theorem exists_chain {outer : List (Option ScopeId)}
    (earlier : ∀ i j : ScopeId, outer[i]? = some (some j) → j < i) (i : ScopeId)
    (there : i < outer.length) : ∃ js, Chain outer i js := by
  induction i using Nat.strongRecOn with
  | ind i ih =>
    have at_ := List.getElem?_eq_getElem there
    cases link : outer[i] with
    | none => exact ⟨[i], .outermost (at_.trans (congrArg some link))⟩
    | some j =>
      have link := at_.trans (congrArg some link)
      have before := earlier i j link
      rcases ih j before (Nat.lt_trans before there) with ⟨js, chain⟩
      exact ⟨i :: js, .inside link chain⟩

/-! ## Along a chain -/

theorem unshadowed_cons_iff :
    Unshadowed ops x (j :: js) t ↔ t = j ∨ NeverSet ops j x ∧ Unshadowed ops x js t := by
  constructor
  · rintro ⟨near, far, same, never⟩
    cases near with
    | nil =>
      cases same
      exact .inl rfl
    | cons k near =>
      cases same
      exact .inr ⟨never j List.mem_cons_self, near, far, rfl,
        fun k here => never k (List.mem_cons_of_mem _ here)⟩
  · rintro (rfl | ⟨never, near, far, rfl, nearer⟩)
    · exact ⟨[], js, rfl, nofun⟩
    · exact ⟨j :: near, far, rfl, List.forall_mem_cons.2 ⟨never, nearer⟩⟩

theorem not_unshadowed_nil : ¬ Unshadowed ops x [] t := by
  rintro ⟨near, far, same, -⟩
  simp at same

/-- What a name stands for, seen along the chain. -/
def Resolves (ops : List ScopeOp) (x : String) (chain : List ScopeId) : Option Value → Prop
  | some v => ∃ t, Unshadowed ops x chain t ∧ LastSet ops t x v
  | none => ∀ j ∈ chain, NeverSet ops j x

namespace Resolves

variable {r q : Option Value}

theorem nowhere : Resolves ops x [] none := by
  intro j there
  cases there

theorem here (set : LastSet ops j x v) : Resolves ops x (j :: js) (some v) :=
  ⟨j, unshadowed_cons_iff.2 (.inl rfl), set⟩

theorem outward (never : NeverSet ops j x) (resolves : Resolves ops x js r) :
    Resolves ops x (j :: js) r := by
  cases r with
  | none => exact List.forall_mem_cons.2 ⟨never, resolves⟩
  | some v =>
    rcases resolves with ⟨t, clear, set⟩
    exact ⟨t, unshadowed_cons_iff.2 (.inr ⟨never, clear⟩), set⟩

/-- The first scope of a chain decides if the name was set there, and else the others do. -/
theorem cases_cons (resolves : Resolves ops x (j :: js) r) :
    (∃ v, r = some v ∧ LastSet ops j x v) ∨ NeverSet ops j x ∧ Resolves ops x js r := by
  cases r with
  | none => exact .inr (List.forall_mem_cons.1 resolves)
  | some v =>
    rcases resolves with ⟨t, clear, set⟩
    rcases unshadowed_cons_iff.1 clear with rfl | ⟨never, clear⟩
    · exact .inl ⟨v, rfl, set⟩
    · exact .inr ⟨never, t, clear, set⟩

theorem unique (first : Resolves ops x js r) (second : Resolves ops x js q) : r = q := by
  induction js with
  | nil =>
    have nowhere : ∀ {r}, Resolves ops x [] r → r = none := by
      rintro (_ | v) resolves
      · rfl
      · rcases resolves with ⟨t, clear, -⟩
        exact absurd clear not_unshadowed_nil
    rw [nowhere first, nowhere second]
  | cons j js ih =>
    rcases first.cases_cons with ⟨v, rfl, set⟩ | ⟨never, first⟩ <;>
      rcases second.cases_cons with ⟨w, rfl, set'⟩ | ⟨never', second⟩
    · rw [set.unique set']
    · exact absurd never' set.not_neverSet
    · exact absurd never set'.not_neverSet
    · exact ih first second

/-- A name that is set in a scope on the chain is resolved to what it is set to, if no scope before
hides it. -/
theorem set (descends : js.Pairwise (· > ·)) (clear : Unshadowed ops x js t) (v : Value) :
    Resolves (ops ++ [.set t x v]) x js (some v) := by
  refine ⟨t, ?_, .self ops t x v⟩
  rcases clear with ⟨near, far, rfl, never⟩
  refine ⟨near, far, rfl, fun j here => (never j here).snoc fun w same => ?_⟩
  cases same
  exact Nat.lt_irrefl _ ((List.pairwise_append.1 descends).2.2 _ here _ List.mem_cons_self)

/-- To all other names, and along all other chains, setting it makes no difference. -/
theorem unset (other : ¬ (y = x ∧ Unshadowed ops x js t)) (v : Value)
    (resolves : Resolves ops y js r) : Resolves (ops ++ [.set t x v]) y js r := by
  induction js with
  | nil =>
    cases r with
    | none => exact nofun
    | some w =>
      rcases resolves with ⟨t, clear, -⟩
      exact absurd clear not_unshadowed_nil
  | cons j js ih =>
    have elsewhere : ∀ w, ScopeOp.set t x v ≠ .set j y w := by
      rintro w same
      cases same
      exact other ⟨rfl, unshadowed_cons_iff.2 (.inl rfl)⟩
    rcases resolves.cases_cons with ⟨w, rfl, set⟩ | ⟨never, resolves⟩
    · exact .here (set.snoc elsewhere)
    · refine .outward (never.snoc elsewhere) (ih ?_ resolves)
      rintro ⟨rfl, clear⟩
      exact other ⟨rfl, unshadowed_cons_iff.2 (.inr ⟨never, clear⟩)⟩

end Resolves
end Script
