import Script.Proofs.Eval.Rules
import Script.Proofs.Table.Order

/-!
# Hashes keep the order of insertion

A hash is a map in the order of first insertion. Under the same insertions the table with an index
never leads to a slot that is not there, each key has a slot of its own, and what stands there is what
was inserted last. The hash that a literal gives is the table of its pairs, so a value looked up in it
is that of the last pair with an equal key.

Main statement: `hashesKeepOrder`.
-/

namespace Script

/-! ## What a table with an index holds -/

/-- After the insertions `items`, each of an entry under a key. -/
structure IndexedTable.Holds {κ ε : Type} [DecidableEq κ] (items : List (κ × ε))
    (h : IndexedTable κ ε) : Prop where
  /-- The index leads from the inserted keys and from no others. -/
  indexed : ∀ k, (∃ slot, h.index.get? k = some slot) ↔ k ∈ items.map Prod.fst
  /-- It leads to all slots that are there, and to no others. -/
  slots : ∀ slot, (∃ k, h.index.get? k = some slot) ↔ slot < h.size
  /-- No two keys share a slot. -/
  apart : ∀ j k slot, h.index.get? j = some slot → h.index.get? k = some slot → j = k
  /-- What stands in the slot of a key was inserted under it. -/
  inside : ∀ k slot, h.index.get? k = some slot →
    ∃ entry, h.entries[slot]? = some entry ∧ (k, entry) ∈ items
  /-- There are as many entries as different keys. -/
  size : h.size = (items.map Prod.fst).eraseDups.length
  /-- The entries stand in the order in which their keys come first, each as it comes last. -/
  order : h.entries.map some = (items.map Prod.fst).eraseDups.map fun k => items.reverse.lookup k
  /-- A key leads to the entry that was inserted last under it, if there is one. -/
  lookup : ∀ k, h.get? k = some (items.reverse.lookup k)

theorem IndexedTable.Follows.holds {κ ε : Type} [DecidableEq κ] {items : List (κ × ε)}
    {h : IndexedTable κ ε} (follows : h.Follows (Table.insertAll [] items)) : h.Holds items := by
  have keys := Table.keys_insertAll items
  have distinct := Table.nodup_keys_insertAll items
  have same : h.size = (Table.keys (Table.insertAll [] items)).length := by
    rw [follows.size, Table.keys, List.length_map]
  constructor
  case indexed =>
    intro k
    rw [← Option.isSome_iff_exists, Option.isSome_iff_ne_none, follows.index, ← List.mem_eraseDups,
      ← keys, ne_eq, Table.slot?_eq_none_iff, not_not]
  case slots =>
    intro slot
    rw [follows.size]
    constructor
    · rintro ⟨k, at_⟩
      rw [follows.index] at at_
      rcases Table.exists_of_slot? at_ with ⟨v, stands, -⟩
      exact (List.getElem?_eq_some_iff.1 stands).1
    · intro inside
      refine ⟨((Table.insertAll [] items)[slot]).1, ?_⟩
      rw [follows.index]
      exact Table.slot?_of_getElem? distinct (List.getElem?_eq_getElem inside)
  case apart =>
    intro j k slot at_ at_'
    rw [follows.index] at at_ at_'
    rcases Table.exists_of_slot? at_ with ⟨v, stands, -⟩
    rcases Table.exists_of_slot? at_' with ⟨w, stands', -⟩
    rw [stands] at stands'
    cases stands'
    rfl
  case inside =>
    intro k slot at_
    rw [follows.index] at at_
    rcases Table.exists_of_slot? at_ with ⟨v, stands, -⟩
    refine ⟨v, ?_, Table.mem_of_mem_insertAll (List.mem_of_getElem? stands)⟩
    rw [follows.entries, List.getElem?_map, stands]
    rfl
  case size => rw [same, keys]
  case order =>
    rw [follows.entries, ← Table.map_get?_keys distinct, keys]
    exact List.map_congr_left fun k _ => Table.get?_insertAll items k
  case lookup =>
    intro k
    rw [follows.get?, Table.get?_insertAll]

/-! ## The hash that a literal gives -/

/-- Begun in `s`, the keys and values of the pairs are evaluated from left to right: they give
`items`, each a key with its value, and leave `t`. -/
inductive ItemsEnd (scope : ScopeId) :
    List (Expr × Expr) → State → List (Key × Value) → State → Prop
  | nil {s} : ItemsEnd scope [] s [] s
  | cons {key value ps s v k t w u items u'} : Ends (.expr scope key) s (.ok v) t →
      v.key? = some k → Ends (.expr scope value) t (.ok w) u → ItemsEnd scope ps u items u' →
      ItemsEnd scope ((key, value) :: ps) s ((k, w) :: items) u'

theorem ItemsEnd.ends {scope : ScopeId} {ps : List (Expr × Expr)} {s t : State}
    {items : List (Key × Value)} (h : ItemsEnd scope ps s items t) (table : Table Key Value) :
    Ends (.pairs scope table ps) s (.ok (table.insertAll items)) t := by
  induction h generalizing table with
  | nil => exact ⟨0, rfl⟩
  | cons key usable value _ ih => exact key.consPair usable value (ih _)

/-- An entry of a hash: the key as a value, with its value. -/
def entryOf (item : Key × Value) : Key × Value × Value :=
  (item.1, item.1.toValue, item.2)

/-- The insertions of a literal, as those of entries. -/
theorem insertAll_map_entryOf (t : Table Key Value) (items : List (Key × Value)) :
    Table.insertAll (t.map entryOf) (items.map entryOf) = (t.insertAll items).map entryOf := by
  have one (k : Key) (v : Value) (t : Table Key Value) :
      Table.insert k (k.toValue, v) (t.map entryOf) = (t.insert k v).map entryOf := by
    induction t with
    | nil => rfl
    | cons p t ih =>
      rcases p with ⟨j, w⟩
      by_cases same : j = k
      · simp [Table.insert, entryOf, same]
      · simp [Table.insert, entryOf, same, ← ih]
  induction items generalizing t with
  | nil => rfl
  | cons item items ih =>
    rcases item with ⟨k, v⟩
    exact (congrArg (Table.insertAll · (items.map entryOf)) (one k v t)).trans (ih _)

/-! ## Keys -/

/-- Words tell integers apart, and they tell truth values apart. -/
theorem Key.eq_of_word? {j k : Key} {word : UInt64} (type : j.toValue.type = k.toValue.type)
    (first : j.word? = some word) (second : k.word? = some word) : j = k := by
  have same := first.trans second.symm
  cases j with
  | int m =>
    cases k with
    | int n =>
      have words : m.toUInt64 = n.toUInt64 := Option.some.inj same
      exact congrArg _ (Int64.toBitVec_inj.1 (congrArg UInt64.toBitVec words))
    | bool | str => cases type
  | bool b =>
    cases k with
    | bool c =>
      have words : b.toUInt64 = c.toUInt64 := Option.some.inj same
      revert words
      cases b <;> cases c <;> decide
    | int | str => cases type
  | str => cases first

/-! ## The order of insertion -/

/-- Hashes are maps in the order of first insertion. -/
structure HashesKeepOrder : Prop where
  /-- Insertions into the empty table, each under the key of its own entry, all succeed, and each
  entry stands in the slot of its own key. -/
  insertions : ∀ items : List (Key × Value × Value),
    (∀ item ∈ items, item.2.1.key? = some item.1) →
    ∃ h, IndexedTable.empty.insertAll? items = some h ∧ h.Holds items ∧
      ∀ k slot, h.index.get? k = some slot →
        ∃ entry, h.entries[slot]? = some entry ∧ entry.1.key? = some k
  /-- Values with the same key are of the same type and content. -/
  keys : ∀ (v w : Value) (k : Key), v.key? = some k → w.key? = some k → v = w
  /-- Keys of one type that are kept as a word are told apart by it. -/
  words : ∀ (j k : Key) (word : UInt64), j.toValue.type = k.toValue.type → j.word? = some word →
    k.word? = some word → j = k
  /-- A literal whose keys and values are all evaluated gives a hash. Its pairs are the entries that
  insertion from left to right gives, and the value at a key is that of the last item with this key,
  or `null` if there is none. -/
  literal : ∀ (scope : ScopeId) (ps : List (Expr × Expr)) (s t : State) (items : List (Key × Value)),
    ItemsEnd scope ps s items t →
    ∃ id table u h, Ends (.expr scope (.hash ps)) s (.ok (.hash id table)) u ∧
      IndexedTable.empty.insertAll? (items.map entryOf) = some h ∧
      h.entries = table.map (fun p => (p.1.toValue, p.2)) ∧
      ∀ i k, i.key? = some k →
        (Value.hash id table).elementAt i = .ok ((items.reverse.lookup k).getD .null)

theorem hashesKeepOrder : HashesKeepOrder where
  insertions items own := by
    rcases IndexedTable.Follows.empty.insertAll? items with ⟨h, inserted, follows⟩
    have holds := follows.holds
    refine ⟨h, inserted, holds, fun k slot at_ => ?_⟩
    rcases holds.inside k slot at_ with ⟨entry, stands, there⟩
    exact ⟨entry, stands, own _ there⟩
  keys v w k first second := by
    rw [← Value.toValue_of_key? first, ← Value.toValue_of_key? second]
  words j k word type first second := Key.eq_of_word? type first second
  literal scope ps s t items ends := by
    rcases IndexedTable.Follows.empty.insertAll? (items.map entryOf) with ⟨h, inserted, follows⟩
    refine ⟨_, _, _, h, (ends.ends []).hash, inserted, ?_, fun i k key => ?_⟩
    · have entries := insertAll_map_entryOf [] items
      rw [List.map_nil] at entries
      rw [follows.entries, entries, List.map_map]
      rfl
    · rw [Value.elementAt, key, ← Table.get?_insertAll]

/-- For example, in `{1: 2, true: 3, 1: 4}` the last pair takes the place of the first one. -/
theorem hashesKeepOrder_replaced :
    let items : List (Key × Value) := [(.int 1, .int 2), (.bool true, .int 3), (.int 1, .int 4)]
    let ps : List (Expr × Expr) := [(.int 1, .int 2), (.bool true, .int 3), (.int 1, .int 4)]
    (∃ h, IndexedTable.empty.insertAll? (items.map entryOf) = some h ∧ h.Holds (items.map entryOf)) ∧
      ∃ id table u, Ends (.expr State.root (.hash ps)) .initial (.ok (.hash id table)) u ∧
        (Value.hash id table).elementAt (.int 1) = .ok (.int 4) ∧
        (Value.hash id table).elementAt (.bool true) = .ok (.int 3) ∧
        (Value.hash id table).elementAt (.str "true") = .ok .null := by
  intro items ps
  have own : ∀ item ∈ items.map entryOf, item.2.1.key? = some item.1 := by
    simp [items, entryOf]
  have ends : ItemsEnd State.root ps .initial items .initial :=
    .cons ⟨1, rfl⟩ rfl ⟨1, rfl⟩ (.cons ⟨1, rfl⟩ rfl ⟨1, rfl⟩ (.cons ⟨1, rfl⟩ rfl ⟨1, rfl⟩ .nil))
  rcases hashesKeepOrder.insertions _ own with ⟨h, inserted, holds, -⟩
  rcases hashesKeepOrder.literal _ _ _ _ _ ends with ⟨id, table, u, -, ends, -, -, found⟩
  exact ⟨⟨h, inserted, holds⟩, id, table, u, ends, found _ (.int 1) rfl, found _ (.bool true) rfl,
    found _ (.str "true") rfl⟩

end Script
