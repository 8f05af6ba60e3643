import Script.Value.Equality
import Script.Proofs.Hashes

/-!
# Identical values and alike values

Each notion of sameness asks whether two values have something in common. Identical values have the
same `identity?`: what a plain value is, or which object it is. Alike values have the same `content`:
the value without the identities of its arrays and hashes. That both are symmetric and transitive is
then plain to see, and so is for which values they are reflexive.

Values that can be keys have no parts and no identity beside their content, so for them the two
notions are one, and it is that of the key.
-/

namespace Script
namespace Value

/-! ## Identical values -/

/-- What a value is compared by: an object without what it holds, or a plain value. -/
def identity? : Value → Option Value
  | array id _ => some (array id [])
  | hash id _ => some (hash id [])
  | function id _ => some (function id ⟨[], [], 0⟩)
  | returned _ | error _ => none
  | v => some v

theorem identical_iff {v w : Value} :
    v.identical w = true ↔ v.identity?.isSome ∧ v.identity? = w.identity? := by
  cases v <;> cases w <;> simp [identical, identity?]

theorem identical_self_iff {v : Value} :
    v.identical v = true ↔ v.isReturned = false ∧ v.isError = false := by
  rw [identical_iff]
  cases v <;> simp [identity?, isReturned, isError]

theorem identical_comm (v w : Value) : v.identical w = w.identical v := by
  have one {v w : Value} (same : v.identical w = true) : w.identical v = true := by
    rcases identical_iff.1 same with ⟨some, same⟩
    exact identical_iff.2 ⟨same ▸ some, same.symm⟩
  exact Bool.eq_iff_iff.2 ⟨one, one⟩

theorem identical_trans {u v w : Value} (first : u.identical v = true)
    (second : v.identical w = true) : u.identical w = true := by
  rcases identical_iff.1 first with ⟨some, first⟩
  exact identical_iff.2 ⟨some, first.trans (identical_iff.1 second).2⟩

/-! ## Alike values -/

mutual

/-- A value without the identities of its arrays and hashes. Of a function only its identity is
left. -/
def content : Value → Value
  | array _ vs => array 0 (contentAll vs)
  | hash _ ps => hash 0 (contentPairs ps)
  | function id _ => function id ⟨[], [], 0⟩
  | returned v => returned (content v)
  | v => v

def contentAll : List Value → List Value
  | [] => []
  | v :: vs => content v :: contentAll vs

def contentPairs : Table Key Value → Table Key Value
  | [] => []
  | (k, v) :: ps => (k, content v) :: contentPairs ps

end

mutual

theorem alike_iff : (v w : Value) → (v.alike w = true ↔ v.content = w.content)
  | array _ vs, w => by
    cases w with
    | array _ ws => simp [alike, content, alikeAll_iff vs ws]
    | _ => simp [alike, content, identical]
  | hash _ ps, w => by
    cases w with
    | hash _ qs => simp [alike, content, alikePairs_iff ps qs]
    | _ => simp [alike, content, identical]
  | returned v, w => by
    cases w with
    | returned w => simp [alike, content, alike_iff v w]
    | _ => simp [alike, content, identical]
  | int _, w | bool _, w | str _, w | function .., w | builtin _, w | null, w | error _, w => by
    cases w <;> simp [alike, content, identical]

theorem alikeAll_iff : (vs ws : List Value) →
    (alikeAll vs ws = true ↔ contentAll vs = contentAll ws)
  | [], ws => by cases ws <;> simp [alikeAll, contentAll]
  | v :: vs, ws => by
    cases ws with
    | nil => simp [alikeAll, contentAll]
    | cons w ws => simp [alikeAll, contentAll, alike_iff v w, alikeAll_iff vs ws]

theorem alikePairs_iff : (ps qs : Table Key Value) →
    (alikePairs ps qs = true ↔ contentPairs ps = contentPairs qs)
  | [], qs => by cases qs <;> simp [alikePairs, contentPairs]
  | (k, v) :: ps, qs => by
    cases qs with
    | nil => simp [alikePairs, contentPairs]
    | cons q qs =>
      simp [alikePairs, contentPairs, alike_iff v q.2, alikePairs_iff ps qs, and_assoc]

end

theorem alike_refl (v : Value) : v.alike v = true :=
  (alike_iff v v).2 rfl

theorem alike_comm (v w : Value) : v.alike w = w.alike v := by
  rw [Bool.eq_iff_iff, alike_iff, alike_iff]
  exact eq_comm

theorem alike_trans {u v w : Value} (first : u.alike v = true) (second : v.alike w = true) :
    u.alike w = true := by
  rw [alike_iff] at *
  exact first.trans second

/-! ## Values that can be keys -/

theorem identity?_of_key? {v : Value} {k : Key} (keyed : v.key? = some k) :
    v.identity? = some v := by
  rw [← toValue_of_key? keyed]
  cases k <;> rfl

theorem key?_content (v : Value) : v.content.key? = v.key? := by
  cases v <;> rfl

/-- What has the content of a key is that key. -/
theorem key?_of_alike {v w : Value} (alike : v.alike w = true) : v.key? = w.key? := by
  rw [← key?_content v, ← key?_content w, (alike_iff v w).1 alike]

theorem eq_iff_key?_eq {v w : Value} (keyed : v.key?.isSome) : v.key? = w.key? ↔ v = w := by
  rcases Option.isSome_iff_exists.1 keyed with ⟨k, keyed⟩
  refine ⟨fun same => ?_, fun same => congrArg key? same⟩
  rw [← toValue_of_key? keyed, ← toValue_of_key? (same.symm.trans keyed)]

theorem identical_iff_key?_eq {v w : Value} (left : v.key?.isSome) (right : w.key?.isSome) :
    v.identical w = true ↔ v.key? = w.key? := by
  rcases Option.isSome_iff_exists.1 left with ⟨j, left'⟩
  rcases Option.isSome_iff_exists.1 right with ⟨k, right'⟩
  rw [eq_iff_key?_eq left, identical_iff, identity?_of_key? left', identity?_of_key? right']
  simp

theorem alike_iff_key?_eq {v w : Value} (left : v.key?.isSome) :
    v.alike w = true ↔ v.key? = w.key? :=
  ⟨key?_of_alike, fun same => (eq_iff_key?_eq left).1 same ▸ alike_refl v⟩

end Value

/-- Keys that are not both strings are the same if they are of the same type and have the same
word. -/
theorem Key.eq_iff_word?_eq {j k : Key} (words : j.word?.isSome) :
    j = k ↔ j.toValue.type = k.toValue.type ∧ j.word? = k.word? := by
  refine ⟨fun same => same ▸ ⟨rfl, rfl⟩, fun ⟨type, word⟩ => ?_⟩
  rcases Option.isSome_iff_exists.1 words with ⟨n, first⟩
  exact Key.eq_of_word? type first (word ▸ first)

/-! ## Hashes as tables with an index -/

namespace Table

/-- Tables with the same keys have the same places. -/
theorem slot?_congr {κ α β : Type} [DecidableEq κ] {t : Table κ α} {t' : Table κ β}
    (same : keys t = keys t') (k : κ) : slot? k t = slot? k t' := by
  induction t generalizing t' with
  | nil =>
    cases t' with
    | nil => rfl
    | cons => cases same
  | cons p t ih =>
    cases t' with
    | nil => cases same
    | cons p' t' =>
      rcases List.cons.inj same with ⟨first, others⟩
      rw [slot?, slot?, first, ih others]

end Table

/-- Hashes are compared by their indices and by their entries, a key being compared as a value. -/
structure IndexedTable.Same (h h' : IndexedTable Key (Value × Value)) : Prop where
  index : ∀ k, h.index.get? k = h'.index.get? k
  entries : List.Forall₂ (fun p q => p.1.alike q.1 = true ∧ p.2.alike q.2 = true) h.entries h'.entries

namespace Value

theorem alikePairs_iff_forall₂ {t t' : Table Key Value} :
    alikePairs t t' = true ↔ List.Forall₂ (fun p q => p.1 = q.1 ∧ p.2.alike q.2 = true) t t' := by
  induction t generalizing t' with
  | nil => cases t' <;> simp [alikePairs]
  | cons p t ih =>
    cases t' with
    | nil => simp [alikePairs]
    | cons q t' => simp [alikePairs, ih, and_assoc]

theorem alike_toValue_iff {j k : Key} : j.toValue.alike k.toValue = true ↔ j = k := by
  rw [alike_iff_key?_eq (by simp), Key.key?_toValue, Key.key?_toValue, Option.some.injEq]

end Value

/-- Equal keys stand in the same slots, so the indices agree as soon as the entries do. -/
theorem IndexedTable.Follows.same_iff {h h' : IndexedTable Key (Value × Value)}
    {t t' : Table Key Value} (first : h.Follows (t.map entryOf))
    (second : h'.Follows (t'.map entryOf)) : h.Same h' ↔ Value.alikePairs t t' = true := by
  have sides : List.Forall₂ (fun p q => p.1.alike q.1 = true ∧ p.2.alike q.2 = true)
      h.entries h'.entries ↔ Value.alikePairs t t' = true := by
    rw [first.entries, second.entries, Value.alikePairs_iff_forall₂]
    simp only [List.map_map, List.forall₂_map_left_iff, List.forall₂_map_right_iff]
    simp only [Function.comp_apply, entryOf, Value.alike_toValue_iff]
  refine ⟨fun same => sides.1 same.entries, fun alike => ⟨fun k => ?_, sides.2 alike⟩⟩
  have keys : Table.keys (t.map entryOf) = Table.keys (t'.map entryOf) := by
    have pairs := Value.alikePairs_iff_forall₂.1 alike
    clear sides first second alike
    induction pairs with
    | nil => rfl
    | cons both _ ih => exact congrArg₂ List.cons both.1 ih
  rw [first.index, second.index, Table.slot?_congr keys]

end Script
