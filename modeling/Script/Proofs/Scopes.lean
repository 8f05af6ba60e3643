import Script.Proofs.Scopes.History

/-!
# Names are resolved by history

Whatever is done to scopes, in whatever order, links lead to scopes made earlier, so looking outward
for a name comes to an end. What is found is the value that the name was set to last, in the nearest
scope in which it was ever set: a scope may be set after others were made inside it, and this is seen
from them unless a nearer scope hides it.

Main statement: `names_resolve_by_history`.
-/

namespace Script

/-! ## Looking outward -/

/-- Looks outward for a name, from link to link, wherever the links lead. This gives nothing if it goes
on for ever. -/
def State.walk (s : State) (x : String) (scope : ScopeId) : Option (Option Value) :=
  match s.scopes[scope]? with
  | none => some none
  | some here =>
    match here.bindings.get? x with
    | some v => some (some v)
    | none =>
      match here.outer with
      | none => some none
      | some outer => s |>.walk x outer
partial_fixpoint

/-- Where links lead to scopes made earlier, one comes to the end of them. -/
theorem State.walk_eq {s : State}
    (earlier : ∀ (i j : ScopeId) (here : Scope), s.scopes[i]? = some here → here.outer = some j → j < i)
    (x : String) (i : ScopeId) : s.walk x i = some (s.lookup x i) := by
  induction i using Nat.strongRecOn with
  | ind i ih =>
    rw [State.walk, State.lookup]
    cases there : s.scopes[i]? with
    | none => rfl
    | some here =>
      cases bound : here.bindings.get? x with
      | some v => simp only [bound]
      | none =>
        cases link : here.outer with
        | none => simp only [bound, link]
        | some outer =>
          have before := earlier i outer here there link
          simp only [bound, link, if_pos before, ih outer before]

/-! ## What a history has made -/

variable {ops : List ScopeOp} {op : ScopeOp} {s : State} {i j t : ScopeId} {js : List ScopeId}
  {x y : String} {v : Value}

/-- The scopes have the links that they were made with, which lead to scopes made earlier, and bind
each name to what it was set to last. -/
structure Recorded (ops : List ScopeOp) (s : State) : Prop where
  size : s.scopes.size = (links ops).length
  linked : ∀ (i : ScopeId) (here : Scope), s.scopes[i]? = some here →
    (links ops)[i]? = some here.outer
  earlier : ∀ i j : ScopeId, (links ops)[i]? = some (some j) → j < i
  /-- Only scopes that are there were set. -/
  inside : ∀ i x v, ScopeOp.set i x v ∈ ops → i < s.scopes.size
  set : ∀ (i : ScopeId) (here : Scope) x v, s.scopes[i]? = some here →
    here.bindings.get? x = some v → LastSet ops i x v
  unset : ∀ (i : ScopeId) (here : Scope) x, s.scopes[i]? = some here →
    here.bindings.get? x = none → NeverSet ops i x

namespace Recorded

theorem bare : Recorded [] .bare where
  size := rfl
  linked i here there := by simp [State.bare] at there
  earlier i j link := by simp [links] at link
  inside := nofun
  set i here x v there := by simp [State.bare] at there
  unset i here x there := by simp [State.bare] at there

/-- A new scope lies where its link leads, and in it no name was ever set. -/
theorem addScope (recorded : Recorded ops s) {link : Option ScopeId} (made : op.link? = some link)
    (before : ∀ j ∈ link, j < s.scopes.size) :
    Recorded (ops ++ [op]) (s.addScope ⟨[], link⟩).2 := by
  have plain : ∀ i x v, op ≠ .set i x v := by
    rintro i x v rfl
    cases made
  have same : links (ops ++ [op]) = links ops ++ [link] := by
    rw [links_snoc, made]
    rfl
  have size : (s.addScope ⟨[], link⟩).2.scopes.size = s.scopes.size + 1 := Array.size_push _
  -- A scope is one that was there, with its bindings, or the new one.
  have scopes : ∀ (i : ScopeId) (here : Scope), (s.addScope ⟨[], link⟩).2.scopes[i]? = some here →
      s.scopes[i]? = some here ∨ i = s.scopes.size ∧ here = ⟨[], link⟩ := by
    intro i here there
    simp only [State.addScope, Array.getElem?_push] at there
    split at there
    · rename_i new
      cases there
      exact .inr ⟨new, rfl⟩
    · exact .inl there
  have last : (links ops ++ [link])[s.scopes.size]? = some link := by
    rw [recorded.size, List.getElem?_concat_length]
  constructor
  case size => rw [size, same, List.length_append, recorded.size, List.length_singleton]
  case linked =>
    intro i here there
    rw [same]
    rcases scopes i here there with old | ⟨rfl, rfl⟩
    · have link := recorded.linked i here old
      rw [List.getElem?_append_left (List.getElem?_eq_some_iff.1 link).1, link]
    · exact last
  case earlier =>
    intro i j link
    rw [same] at link
    rcases Nat.lt_trichotomy i s.scopes.size with old | rfl | far
    · rw [List.getElem?_append_left (recorded.size ▸ old)] at link
      exact recorded.earlier i j link
    · exact before j (Option.some.inj (last.symm.trans link))
    · rw [List.getElem?_eq_none (by simp [← recorded.size, Nat.succ_le_of_lt far])] at link
      cases link
  case inside =>
    intro i x v there
    rw [size]
    rcases List.mem_append.1 there with old | new
    · exact Nat.lt_succ_of_lt (recorded.inside i x v old)
    · exact absurd (List.mem_singleton.1 new).symm (plain i x v)
  case set =>
    intro i here x v there bound
    rcases scopes i here there with old | ⟨rfl, rfl⟩
    · exact (recorded.set i here x v old bound).snoc (plain i x)
    · cases bound
  case unset =>
    intro i here x there unbound
    rcases scopes i here there with old | ⟨rfl, rfl⟩
    · exact (recorded.unset i here x old unbound).snoc (plain i x)
    · have never : NeverSet ops s.scopes.size x :=
        fun v there => Nat.lt_irrefl _ (recorded.inside _ x v there)
      exact never.snoc (plain _ x)

/-- Setting a name makes no scope and changes no link. -/
theorem bind (recorded : Recorded ops s) (there : t < s.scopes.size) (x : String) (v : Value) :
    Recorded (ops ++ [.set t x v]) (s.bind t x v) := by
  have same : links (ops ++ [.set t x v]) = links ops := by
    rw [links_snoc]
    exact List.append_nil _
  have size : (s.bind t x v).scopes.size = s.scopes.size := Array.size_modify
  -- The bindings of a scope are those from before, with the new one if it is the scope that is set.
  have scopes : ∀ (i : ScopeId) (here : Scope), (s.bind t x v).scopes[i]? = some here →
      ∃ before, s.scopes[i]? = some before ∧ here.outer = before.outer ∧
        ∀ y, here.bindings.get? y =
          if t = i ∧ y = x then some v else before.bindings.get? y := by
    intro i here after
    simp only [State.bind, Array.getElem?_modify] at after
    split at after
    · rename_i own
      rcases Option.map_eq_some_iff.1 after with ⟨before, was, rfl⟩
      refine ⟨before, was, rfl, fun y => ?_⟩
      simp only [Table.get?_insert, own, true_and]
    · rename_i other
      exact ⟨here, after, rfl, fun y => by rw [if_neg fun both => other both.1]⟩
  have others : ∀ {i y}, ¬ (t = i ∧ y = x) → ∀ w, ScopeOp.set t x v ≠ .set i y w := by
    rintro i y different w same
    cases same
    exact different ⟨rfl, rfl⟩
  constructor
  case size => rw [size, same, recorded.size]
  case linked =>
    intro i here after
    rcases scopes i here after with ⟨before, was, outer, -⟩
    rw [same, outer]
    exact recorded.linked i before was
  case earlier =>
    rw [same]
    exact recorded.earlier
  case inside =>
    intro i y w set
    rw [size]
    rcases List.mem_append.1 set with old | new
    · exact recorded.inside i y w old
    · cases List.mem_singleton.1 new
      exact there
  case set =>
    intro i here y w after bound
    rcases scopes i here after with ⟨before, was, -, bindings⟩
    rw [bindings] at bound
    split at bound
    · rename_i own
      rcases own with ⟨rfl, rfl⟩
      cases bound
      exact .self ops t y v
    · rename_i different
      exact (recorded.set i before y w was bound).snoc (others different)
  case unset =>
    intro i here y after unbound
    rcases scopes i here after with ⟨before, was, -, bindings⟩
    rw [bindings] at unbound
    split at unbound
    · cases unbound
    · rename_i different
      exact (recorded.unset i before y was unbound).snoc (others different)

end Recorded

theorem History.recorded (history : History ops s) : Recorded ops s := by
  induction history with
  | nil => exact .bare
  | @snoc ops s op _ on ih =>
    cases op with
    | new => exact ih.addScope rfl nofun
    | enclose outer => exact ih.addScope rfl fun j link => Option.some.inj link ▸ on
    | set t x v => exact ih.bind on x v

/-! ## What is found along a chain -/

namespace Recorded

variable (recorded : Recorded ops s)

include recorded

theorem walk_eq (x : String) (i : ScopeId) : s.walk x i = some (s.lookup x i) :=
  State.walk_eq (fun i j here there link =>
    recorded.earlier i j (by rw [recorded.linked i here there, link])) x i

/-- Looking outward from a scope finds what the chain from there resolves the name to. -/
theorem resolves (chain : Chain (links ops) i js) (x : String) : Resolves ops x js (s.lookup x i) := by
  have there {i : ScopeId} {link : Option ScopeId} (h : (links ops)[i]? = some link) :
      ∃ here, s.scopes[i]? = some here ∧ here.outer = link := by
    have inside : i < s.scopes.size := recorded.size ▸ (List.getElem?_eq_some_iff.1 h).1
    have here := Array.getElem?_eq_getElem inside
    exact ⟨_, here, Option.some.inj ((recorded.linked i _ here).symm.trans h)⟩
  induction chain with
  | @outermost i link =>
    rcases there link with ⟨here, at_, outer⟩
    cases bound : here.bindings.get? x with
    | some v =>
      rw [State.lookup_of_bound at_ bound]
      exact .here (recorded.set i here x v at_ bound)
    | none =>
      have nowhere : s.lookup x i = none := by
        rw [State.lookup, at_]
        simp only [bound, outer]
      rw [nowhere]
      exact .outward (recorded.unset i here x at_ bound) .nowhere
  | @inside i j js link _ ih =>
    rcases there link with ⟨here, at_, outer⟩
    cases bound : here.bindings.get? x with
    | some v =>
      rw [State.lookup_of_bound at_ bound]
      exact .here (recorded.set i here x v at_ bound)
    | none =>
      rw [State.lookup_of_outer at_ bound outer (recorded.earlier i j link)]
      exact .outward (recorded.unset i here x at_ bound) ih

theorem lookup_eq_iff (chain : Chain (links ops) i js) {r : Option Value} :
    s.lookup x i = r ↔ Resolves ops x js r :=
  ⟨fun found => found ▸ recorded.resolves chain x, (recorded.resolves chain x).unique⟩

end Recorded

/-! ## One more name set -/

section

variable (history : History ops s) (there : t < s.scopes.size)

include history there

/-- Setting one more name adds to the history, but the chains stay as they are. -/
theorem History.recorded_set (x : String) (v : Value) :
    Recorded (ops ++ [.set t x v]) (s.bind t x v) ∧ links (ops ++ [.set t x v]) = links ops := by
  refine ⟨history.recorded.bind there x v, ?_⟩
  rw [links_snoc]
  exact List.append_nil _

/-- What was set shows where no nearer scope hides it. -/
theorem History.lookup_bind (chain : Chain (links ops) i js) (clear : Unshadowed ops x js t)
    (v : Value) : (s.bind t x v).lookup x i = some v := by
  rcases history.recorded_set there x v with ⟨recorded, same⟩
  have descends := (chain.descends history.recorded.earlier).1
  exact (recorded.lookup_eq_iff (same ▸ chain)).2 (.set descends clear v)

/-- All else is as before. -/
theorem History.lookup_bind_of_not (chain : Chain (links ops) i js)
    (other : ¬ (y = x ∧ Unshadowed ops x js t)) (v : Value) :
    (s.bind t x v).lookup y i = s.lookup y i := by
  rcases history.recorded_set there x v with ⟨recorded, same⟩
  exact (recorded.lookup_eq_iff (same ▸ chain)).2
    ((history.recorded.resolves chain y).unset other v)

end

/-! ## The main theorem -/

/-- In the state that the operations have led to, names are resolved by what was done. -/
structure ResolvesByHistory (ops : List ScopeOp) (s : State) : Prop where
  /-- Each scope has the link that it was made with, which leads to a scope made earlier. -/
  linked : ∀ (i : ScopeId) (here : Scope), s.scopes[i]? = some here →
    (links ops)[i]? = some here.outer ∧ ∀ j ∈ here.outer, j < i
  /-- So one chain leads outward from each scope, -/
  chain : ∀ i < s.scopes.size,
    ∃ js, Chain (links ops) i js ∧ ∀ ks, Chain (links ops) i ks → ks = js
  /-- and looking outward comes to an end. -/
  ends : ∀ x i, s.walk x i = some (s.lookup x i)
  /-- What is found was set last in the nearest scope in which the name was ever set. -/
  found : ∀ i js x v, Chain (links ops) i js →
    (s.lookup x i = some v ↔ ∃ t, Unshadowed ops x js t ∧ LastSet ops t x v)
  /-- Nothing is found if and only if the name was set in no scope of the chain. -/
  missed : ∀ i js x, Chain (links ops) i js →
    (s.lookup x i = none ↔ ∀ j ∈ js, NeverSet ops j x)
  /-- Setting a name makes a difference only to this name, and only from where the scope is seen with
  no nearer scope hiding it. -/
  changes : ∀ t x v i js y, t < s.scopes.size → Chain (links ops) i js →
    (s.bind t x v).lookup y i ≠ s.lookup y i → y = x ∧ Unshadowed ops x js t
  /-- From there it is seen, -/
  shows : ∀ t x v i js, t < s.scopes.size → Chain (links ops) i js → Unshadowed ops x js t →
    (s.bind t x v).lookup x i = some v
  /-- as from a scope that was made inside the one that is set. -/
  inside : ∀ t x v i, (links ops)[i]? = some (some t) → NeverSet ops i x →
    (s.bind t x v).lookup x i = some v

theorem names_resolve_by_history (history : History ops s) : ResolvesByHistory ops s := by
  have recorded := history.recorded
  have earlier := recorded.earlier
  constructor
  case linked =>
    intro i here there
    have link := recorded.linked i here there
    exact ⟨link, fun j outer => earlier i j (link.trans (congrArg some outer))⟩
  case chain =>
    intro i there
    rcases exists_chain earlier i (recorded.size ▸ there) with ⟨js, chain⟩
    exact ⟨js, chain, fun ks other => other.unique chain⟩
  case ends => exact recorded.walk_eq
  case found => exact fun i js x v chain => recorded.lookup_eq_iff chain
  case missed => exact fun i js x chain => recorded.lookup_eq_iff chain
  case changes =>
    intro t x v i js y there chain differs
    exact Classical.byContradiction fun other =>
      differs (history.lookup_bind_of_not there chain other v)
  case shows => exact fun t x v i js there chain clear => history.lookup_bind there chain clear v
  case inside =>
    intro t x v i link never
    have there : t < (links ops).length :=
      Nat.lt_trans (earlier i t link) (List.getElem?_eq_some_iff.1 link).1
    rcases exists_chain earlier t there with ⟨js, chain⟩
    rcases chain.exists_cons with ⟨ks, rfl⟩
    have clear : Unshadowed ops x (i :: t :: ks) t :=
      unshadowed_cons_iff.2 (.inr ⟨never, unshadowed_cons_iff.2 (.inl rfl)⟩)
    exact history.lookup_bind (recorded.size ▸ there) (.inside link chain) clear v

/-- For example, a scope inside another one hides the name that it sets itself, and sees the name that
is set outside after it was made. -/
theorem names_resolve_by_history_hidden :
    let ops : List ScopeOp :=
      [.new, .set 0 "x" (.int 1), .enclose 0, .set 1 "x" (.int 2), .set 0 "y" (.int 3)]
    let s := ops.foldl State.perform .bare
    ResolvesByHistory ops s ∧ s.lookup "x" 1 = some (.int 2) ∧ s.lookup "y" 1 = some (.int 3) ∧
      s.lookup "x" 0 = some (.int 1) ∧ s.lookup "z" 1 = none := by
  intro ops s
  have made : History [.new] (State.bare.perform .new) := History.nil.snoc trivial
  have outer : History [.new, .set 0 "x" (.int 1)] _ := made.snoc Nat.zero_lt_one
  have inner : History [.new, .set 0 "x" (.int 1), .enclose 0] _ := outer.snoc Nat.zero_lt_one
  have hidden : History [.new, .set 0 "x" (.int 1), .enclose 0, .set 1 "x" (.int 2)] _ :=
    inner.snoc Nat.one_lt_two
  have history : History ops s := hidden.snoc Nat.two_pos
  have resolves := names_resolve_by_history history
  have here : Chain (links ops) 0 [0] := .outermost rfl
  have chain : Chain (links ops) 1 [1, 0] := .inside rfl here
  refine ⟨resolves, ?_, ?_, ?_, ?_⟩
  · exact (resolves.found 1 _ "x" _ chain).2 ⟨1, unshadowed_cons_iff.2 (.inl rfl),
      [.new, .set 0 "x" (.int 1), .enclose 0], _, rfl, by simp [NeverSet]⟩
  · exact (resolves.found 1 _ "y" _ chain).2 ⟨0, ⟨[1], [], rfl, by simp [NeverSet, ops]⟩,
      [.new, .set 0 "x" (.int 1), .enclose 0, .set 1 "x" (.int 2)], [], rfl, nofun⟩
  · exact (resolves.found 0 _ "x" _ here).2 ⟨0, unshadowed_cons_iff.2 (.inl rfl),
      [.new], _, rfl, by simp [NeverSet]⟩
  · exact (resolves.missed 1 _ "z" chain).2 (by simp [NeverSet, ops])

end Script
