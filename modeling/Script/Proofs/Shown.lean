import Mathlib.Data.List.Forall2
import Script.Proofs.Canonical
import Script.Proofs.Canonical.Functions
import Script.Proofs.Eval.Realm
import Script.Proofs.Eval.Rename
import Script.Proofs.Eval.Rules
import Script.Proofs.Eval.Sequence

/-!
# Shown values read back

The text of a value can be run again. If the value is built from integers, truth values, arrays,
hashes and functions of the language, its text is one expression, and evaluating that gives the value
again: the same elements, the same pairs in the same order, functions with the same parameters and the
same body. Only the objects are new ones.

Two sorts of values do not come back. The text of a string lacks its quotes, and the least integer has
no literal without its sign.

Main statement: `Value.shown_reads_back`.
-/

namespace Script

open Grammar

/-! ## Values of the same content -/

/-- Makes all scopes one and all objects one. -/
def Renaming.blind : Renaming :=
  ⟨fun _ => 0, fun _ => 0⟩

namespace Value

/-- The values differ at most in the identities of objects and scopes. Arrays have elements of the same
content in the same order, hashes the same keys with such values in the same order, functions the
same parameters and the same body. -/
def SameContent (v w : Value) : Prop :=
  v.rename .blind = w.rename .blind

theorem map_rename_eq_iff {ρ : Renaming} {vs ws : List Value} :
    vs.map (rename ρ) = ws.map (rename ρ) ↔
      List.Forall₂ (fun v w => v.rename ρ = w.rename ρ) vs ws := by
  rw [← List.forall₂_eq_eq_eq, List.forall₂_map_left_iff, List.forall₂_map_right_iff]

theorem sameContent_array_iff {id : ObjectId} {vs : List Value} {w : Value} :
    (array id vs).SameContent w ↔ ∃ j ws, w = array j ws ∧ List.Forall₂ SameContent vs ws := by
  constructor
  · intro same
    cases w with
    | array j ws =>
      simp only [SameContent, rename, renameAll_eq_map, array.injEq] at same
      exact ⟨j, ws, rfl, map_rename_eq_iff.1 same.2⟩
    | _ => simp [SameContent, rename] at same
  · rintro ⟨j, ws, rfl, same⟩
    simp only [SameContent, rename, renameAll_eq_map, array.injEq]
    exact ⟨rfl, map_rename_eq_iff.2 same⟩

theorem sameContent_hash_iff {id : ObjectId} {ps : Table Key Value} {w : Value} :
    (hash id ps).SameContent w ↔
      ∃ j qs, w = hash j qs ∧ List.Forall₂ (fun p q => p.1 = q.1 ∧ p.2.SameContent q.2) ps qs := by
  have pairs {qs : Table Key Value} :
      ps.mapValues (rename .blind) = qs.mapValues (rename .blind) ↔
        List.Forall₂ (fun p q => p.1 = q.1 ∧ p.2.SameContent q.2) ps qs := by
    unfold Table.mapValues
    rw [← List.forall₂_eq_eq_eq, List.forall₂_map_left_iff, List.forall₂_map_right_iff]
    simp only [Prod.mk.injEq]
    rfl
  constructor
  · intro same
    cases w with
    | hash j qs =>
      simp only [SameContent, rename, renamePairs_eq_map, hash.injEq] at same
      exact ⟨j, qs, rfl, pairs.1 same.2⟩
    | _ => simp [SameContent, rename] at same
  · rintro ⟨j, qs, rfl, same⟩
    simp only [SameContent, rename, renamePairs_eq_map, hash.injEq]
    exact ⟨rfl, pairs.2 same⟩

theorem sameContent_function_iff {id : ObjectId} {f : Closure} {w : Value} :
    (function id f).SameContent w ↔
      ∃ j g, w = function j g ∧ g.params = f.params ∧ g.body = f.body := by
  constructor
  · intro same
    cases w with
    | function j g =>
      simp only [SameContent, rename, Closure.rename, function.injEq, Closure.mk.injEq] at same
      exact ⟨j, g, rfl, same.2.1.symm, same.2.2.1.symm⟩
    | _ => simp [SameContent, rename] at same
  · rintro ⟨j, g, rfl, params, body⟩
    simp [SameContent, rename, Closure.rename, Renaming.blind, params, body]

mutual

/-- A value is alike to any other one of the same content, unless a function stands in it. -/
theorem alike_of_sameContent : (v : Value) → v.FunctionFree → {w : Value} → v.SameContent w →
    v.alike w = true
  | array _ vs, free, w, same => by
    rcases sameContent_array_iff.1 same with ⟨j, ws, rfl, elements⟩
    exact alikeAll_of_sameContent vs free elements
  | hash _ ps, free, w, same => by
    rcases sameContent_hash_iff.1 same with ⟨j, qs, rfl, pairs⟩
    exact alikePairs_of_sameContent ps free pairs
  | function id f, free, _, _ => absurd rfl (free (function id f) List.mem_cons_self)
  | returned v, free, w, same => by
    cases w with
    | returned w =>
      have inner : v.SameContent w := by simpa [SameContent, rename] using same
      exact alike_of_sameContent v free inner
    | _ => simp [SameContent, rename] at same
  | int _, _, w, same | bool _, _, w, same | str _, _, w, same | builtin _, _, w, same
  | null, _, w, same | error _, _, w, same => by
    cases w <;> simp_all [SameContent, rename, alike, identical]

theorem alikeAll_of_sameContent : (vs : List Value) → (∀ u ∈ leavesAll vs, u.type ≠ .function) →
    {ws : List Value} → List.Forall₂ SameContent vs ws → alikeAll vs ws = true
  | [], _, _, .nil => rfl
  | v :: vs, free, _, .cons same others => by
    rcases List.forall_mem_append.1 free with ⟨first, rest⟩
    exact Bool.and_eq_true_iff.2
      ⟨alike_of_sameContent v first same, alikeAll_of_sameContent vs rest others⟩

theorem alikePairs_of_sameContent : (ps : Table Key Value) →
    (∀ u ∈ leavesPairs ps, u.type ≠ .function) → {qs : Table Key Value} →
    List.Forall₂ (fun p q => p.1 = q.1 ∧ p.2.SameContent q.2) ps qs → alikePairs ps qs = true
  | [], _, _, .nil => rfl
  | (k, v) :: ps, free, (k', w) :: qs, .cons same others => by
    rcases List.forall_mem_append.1 free with ⟨first, rest⟩
    have key : decide (k = k') = true := decide_eq_true same.1
    have value := alike_of_sameContent v first same.2
    have pairs := alikePairs_of_sameContent ps rest others
    rw [alikePairs, key, value, pairs]
    rfl

end

end Value

/-! ## Values that can be read back -/

/-- The least integer has no literal, and a string is shown without quotes. -/
def Key.Readable : Key → Prop
  | .int n => n ≠ Int64.minValue
  | .bool _ => True
  | .str _ => False

/-- The value is built from integers with a literal, truth values and functions that are written in
some program. No key of a hash stands in it twice. -/
inductive Value.Readable : Value → Prop
  | int {n : Int64} : n ≠ Int64.minValue → Readable (.int n)
  | bool {b : Bool} : Readable (.bool b)
  | array {id : ObjectId} {vs : List Value} : (∀ v ∈ vs, Readable v) → Readable (.array id vs)
  | hash {id : ObjectId} {ps : Table Key Value} : ps.keys.Nodup → (∀ p ∈ ps, p.1.Readable) →
      (∀ p ∈ ps, Readable p.2) → Readable (.hash id ps)
  | function {id : ObjectId} {f : Closure} : f.Written → Readable (.function id f)

/-! ## What a text says -/

/-- An integer as an expression: a literal, behind a minus sign if it is negative. -/
def Expr.ofInt (n : Int64) : Expr :=
  if n < 0 then .unary .negate (.int (-n)) else .int n

def Key.toExpr : Key → Expr
  | .int n => .ofInt n
  | .bool b => .bool b
  | .str s => .name s

mutual

/-- The expression that the text of the value is; a word for what has no expression. -/
def Value.toExpr : Value → Expr
  | .int n => .ofInt n
  | .bool b => .bool b
  | .array _ vs => .array (toExprs vs)
  | .hash _ ps => .hash (toExprPairs ps)
  | .function _ f => .fn f.params f.body
  | v => .name v.text

def toExprs : List Value → List Expr
  | [] => []
  | v :: vs => v.toExpr :: toExprs vs

def toExprPairs : Table Key Value → List (Expr × Expr)
  | [] => []
  | (k, v) :: rest => (k.toExpr, v.toExpr) :: toExprPairs rest

end

theorem toExprs_eq_map (vs : List Value) : toExprs vs = vs.map Value.toExpr := by
  induction vs with
  | nil => rfl
  | cons v vs ih => simp [toExprs, ih]

theorem toExprPairs_eq_map (ps : Table Key Value) :
    toExprPairs ps = ps.map fun p => (p.1.toExpr, p.2.toExpr) := by
  induction ps with
  | nil => rfl
  | cons p ps ih => simp [toExprPairs, ih]

theorem writes_ofInt {n : Int64} (ne : n ≠ Int64.minValue) :
    Writes (.expr .equality) (Integer.text n) (.ofInt n) := by
  unfold Expr.ofInt
  split
  case isTrue negative =>
    have opposite := Integer.toInt_neg ne
    have below : n.toInt < 0 := Int64.lt_iff_toInt_lt.1 negative
    have above : 0 ≤ (-n).toInt := by omega
    have text : Integer.text n = UnaryOp.negate.text.toList ++ Integer.text (-n) := by
      rw [Integer.text, Integer.text, Decimal.ofInt, Decimal.ofInt, if_pos below,
        if_neg (Int.not_lt.2 above), opposite, Int.natAbs_neg]
      rfl
    rw [text]
    have literal := (Writes.int (Int64.le_iff_toInt_le.2 above)).loosen (show .unary ≤ _ by decide)
    exact literal.unary.loosen (by decide)
  case isFalse other => exact (Writes.int (Int64.not_lt.1 other)).loosen (by decide)

theorem Key.Readable.writes {k : Key} (h : k.Readable) :
    Writes (.expr .equality) k.render k.toExpr := by
  cases k with
  | int n => exact writes_ofInt h
  | bool b => exact (Writes.bool b).loosen (by decide)
  | str s => cases h

namespace Value.Readable

variable {v : Value}

/-- What stands in an array or a hash is written like the whole. -/
theorem writes (h : v.Readable) : Writes (.expr .equality) v.render v.toExpr := by
  induction h with
  | int ne => exact writes_ofInt ne
  | bool => exact (Writes.bool _).loosen (by decide)
  | array _ ih =>
    rw [render_array, renderAll_eq_map, toExpr, toExprs_eq_map]
    exact (Writes.elements ih).array.loosen (by decide)
  | hash _ keys _ ih =>
    rw [render_hash, renderPairs_eq_map, toExpr, toExprPairs_eq_map]
    have items := Writes.pairs fun p here => ⟨(keys p here).writes, ih p here⟩
    exact items.hash.loosen (by decide)
  | function written => exact (Expr.printed _ written.wellFormed).loosest

/-- The text is one expression, with nothing in front of it or behind it. -/
theorem parse_text (h : v.Readable) : Program.parse v.text = .ok [.expr v.toExpr] := by
  rcases h.writes with ⟨ts, spells, derives⟩
  have characters : v.text.toList = v.render := String.toList_ofList
  have whole := derives []
  rw [List.append_nil, ← spells.2, ← characters] at whole
  refine Program.parse_of_derives (.statements (.bare (.expr whole) ?_) .noStatements)
  simp

end Value.Readable

/-! ## What evaluating the text gives -/

section

variable {scope : ScopeId} {s : State}

theorem ends_ofInt (n : Int64) : Ends (.expr scope (.ofInt n)) s (.ok (.int n)) s := by
  have ends : Expr.eval 2 scope (.ofInt n) s = some (.ok (.int n), s) := by
    unfold Expr.ofInt
    split
    case isTrue negative =>
      have twice : UnaryOp.negate.apply (.int (-n)) = .ok (.int n) := by
        rw [UnaryOp.apply, Int64.neg_neg]
      exact congrArg (fun r => some (r, s)) twice
    case isFalse => rfl
  exact ⟨2, ends⟩

theorem Key.Readable.ends {k : Key} (h : k.Readable) :
    Ends (.expr scope k.toExpr) s (.ok k.toValue) s := by
  cases k with
  | int n => exact ends_ofInt n
  | bool b => exact ⟨1, rfl⟩
  | str s => cases h

/-- From any state the expression gives a value of the same content. -/
def Value.Returns (scope : ScopeId) (v : Value) : Prop :=
  ∀ s, ∃ w t, Ends (.expr scope v.toExpr) s (.ok w) t ∧ v.SameContent w

theorem Value.Returns.all {vs : List Value} (each : ∀ v ∈ vs, v.Returns scope) (s : State) :
    ∃ ws t, Ends (.all scope (vs.map toExpr)) s (.ok ws) t ∧ List.Forall₂ SameContent vs ws := by
  induction vs generalizing s with
  | nil => exact ⟨[], s, ⟨0, rfl⟩, .nil⟩
  | cons v vs ih =>
    rcases List.forall_mem_cons.1 each with ⟨first, others⟩
    rcases first s with ⟨w, t, ends, same⟩
    rcases ih others t with ⟨ws, u, ends', same'⟩
    exact ⟨w :: ws, u, ends.cons ends', .cons same same'⟩

/-- Different keys go into a table in the order in which they come. -/
theorem Value.Returns.pairs {ps : Table Key Value} (keys : ∀ p ∈ ps, p.1.Readable)
    (each : ∀ p ∈ ps, p.2.Returns scope) (s : State) (table : Table Key Value)
    (new : (table.keys ++ ps.keys).Nodup) :
    ∃ qs t, Ends (.pairs scope table (ps.map fun p => (p.1.toExpr, p.2.toExpr))) s
        (.ok (table ++ qs)) t ∧
      List.Forall₂ (fun p q => p.1 = q.1 ∧ p.2.SameContent q.2) ps qs := by
  induction ps generalizing s table with
  | nil =>
    have none : Ends (.pairs scope table []) s (.ok table) s := ⟨0, rfl⟩
    exact ⟨[], s, by rwa [List.append_nil], .nil⟩
  | cons p ps ih =>
    rcases p with ⟨k, v⟩
    rcases List.forall_mem_cons.1 keys with ⟨readable, keys⟩
    rcases List.forall_mem_cons.1 each with ⟨first, others⟩
    rcases first s with ⟨w, t, ends, same⟩
    -- The key is not there yet, so its pair comes last.
    have fresh : k ∉ table.keys := fun here =>
      (List.nodup_append.1 new).2.2 k here k List.mem_cons_self rfl
    have last : table.insert k w = table ++ [(k, w)] := Table.insert_of_notMem fresh w
    have order : ((table ++ [(k, w)]).keys ++ Table.keys ps).Nodup := by
      simpa [Table.keys] using new
    rcases ih keys others t (table ++ [(k, w)]) order with ⟨qs, u, ends', same'⟩
    rw [← last] at ends'
    have whole := readable.ends.consPair k.key?_toValue ends ends'
    have grown : table.insert k w ++ qs = table ++ (k, w) :: qs := by simp [last]
    rw [grown] at whole
    exact ⟨(k, w) :: qs, u, whole, .cons ⟨rfl, same⟩ same'⟩

end

theorem Value.Readable.returns {v : Value} (h : v.Readable) (scope : ScopeId) : v.Returns scope := by
  induction h with
  | int => exact fun s => ⟨_, s, ends_ofInt _, rfl⟩
  | bool => exact fun s => ⟨_, s, ⟨1, rfl⟩, rfl⟩
  | array _ ih =>
    intro s
    rcases Value.Returns.all ih s with ⟨ws, t, ⟨n, ends⟩, same⟩
    rw [← toExprs_eq_map] at ends
    exact ⟨.array t.fresh ws, t.useFresh, ⟨n + 1, Eval.bind_of_ok ends⟩,
      sameContent_array_iff.2 ⟨_, _, rfl, same⟩⟩
  | hash order keys _ ih =>
    intro s
    rcases Value.Returns.pairs keys ih s [] order with ⟨qs, t, ⟨n, ends⟩, same⟩
    rw [← toExprPairs_eq_map] at ends
    exact ⟨.hash t.fresh qs, t.useFresh, ⟨n + 1, Eval.bind_of_ok ends⟩,
      sameContent_hash_iff.2 ⟨_, _, rfl, same⟩⟩
  | @function id f _ =>
    intro s
    exact ⟨.function s.fresh ⟨f.params, f.body, scope⟩, s.useFresh, ⟨1, rfl⟩,
      sameContent_function_iff.2 ⟨_, _, rfl, rfl, rfl⟩⟩

/-! ## The round trip -/

/-- What has the content of a readable value is not on its way out of a function. -/
theorem Value.SameContent.unwrap {v w : Value} (same : v.SameContent w) (h : v.Readable) :
    w.unwrap = w := by
  have unmarked : w.isReturned = false := by
    rw [← isReturned_rename .blind, ← same, isReturned_rename]
    cases h <;> rfl
  cases w with
  | returned w => cases unmarked
  | _ => rfl

/-- The text of a readable value is a program, and whenever it is run it gives the value again: one of
the same content, which is alike unless there are functions in it. -/
theorem Value.shown_reads_back {v : Value} (h : v.Readable) :
    ∃ program, Program.parse v.text = .ok program ∧
      ∀ s, ∃ w t, program.Gives State.root s (some w) t ∧ v.SameContent w ∧
        (v.FunctionFree → v.alike w = true) := by
  refine ⟨[.expr v.toExpr], h.parse_text, fun s => ?_⟩
  rcases h.returns State.root s with ⟨w, t, ⟨n, ends⟩, same⟩
  have body : Statement.runAll n State.root [.expr v.toExpr] s = some (.ok (some w), t) := by
    refine (Eval.bind_of_ok (Eval.bind_of_ok ends)).trans ?_
    split <;> rfl
  refine ⟨w, t, Program.gives_iff.2 ⟨.ok (some w), ⟨n, body⟩, ?_⟩, same,
    fun free => v.alike_of_sameContent free same⟩
  exact congrArg some (same.unwrap h)

/-- For example, a hash in an array, with negative numbers, and a function. -/
theorem Value.shown_reads_back_nested :
    let body : Block := [.leave (.binary .add (.name "x") (.int 1))]
    let v : Value := .array 7 [.int (-5), .hash 8 [(.int (-1), .bool true), (.bool false, .array 9 [])],
      .function 3 ⟨["x"], body, 4⟩]
    v.Readable ∧ ∃ program, Program.parse v.text = .ok program ∧
      ∃ w t, program.Gives State.root .initial (some w) t ∧ v.SameContent w := by
  intro body v
  -- The function is written in the canonical text of its own literal.
  have written : Closure.Written ⟨["x"], body, 4⟩ :=
    ⟨_, [.expr (.fn ["x"] body)], Program.parse_text (by decide), List.mem_cons_self⟩
  have inner : (Value.array 9 []).Readable := .array (List.forall_mem_nil _)
  have hash : (Value.hash 8 [(.int (-1), .bool true), (.bool false, .array 9 [])]).Readable := by
    refine .hash (by decide) ?_ ?_
    · simp [Key.Readable]
    · simp [Value.Readable.bool, inner]
  have readable : v.Readable := by
    refine .array ?_
    simp [Value.Readable.int, hash, Value.Readable.function written]
  rcases Value.shown_reads_back readable with ⟨program, parsed, gives⟩
  rcases gives .initial with ⟨w, t, gives, same, -⟩
  exact ⟨readable, program, parsed, w, t, gives, same⟩

end Script
