import Script.Table.Indexed
import Mathlib.Data.List.Induction
import Mathlib.Data.List.Nodup

/-!
# Many insertions

The table of a list of insertions: its keys are those of the list without the repeated ones, each in
the place where it comes first, and the value of a key is the one that comes last. A table with an
index follows the table: it has the same entries in the same order, and its index gives the place of
each key.
-/

namespace Script

variable {κ α : Type} [DecidableEq κ]

/-! ## Places -/

namespace Table

theorem slot?_eq_none_iff {k : κ} {t : Table κ α} : slot? k t = none ↔ k ∉ keys t := by
  induction t with
  | nil => simp [slot?, keys]
  | cons p t ih =>
    rcases p with ⟨j, w⟩
    by_cases same : j = k
    · simp [slot?, keys, same]
    · have other : k ≠ j := fun e => same e.symm
      simp [slot?, same, ih, keys, other]

/-- At the place of a key stands the key with its value. -/
theorem exists_of_slot? {k : κ} {i : Nat} {t : Table κ α} (h : slot? k t = some i) :
    ∃ v, t[i]? = some (k, v) ∧ get? k t = some v := by
  induction t generalizing i with
  | nil => cases h
  | cons p t ih =>
    rcases p with ⟨j, w⟩
    rw [slot?] at h
    split at h
    · rename_i same
      cases h
      exact ⟨w, by simp [same], by simp [get?, same]⟩
    · rename_i other
      rcases Option.map_eq_some_iff.1 h with ⟨i, place, rfl⟩
      simpa [get?, other] using ih place

/-- If no key stands twice, then a key has no place but its own. -/
theorem slot?_of_getElem? {k : κ} {v : α} {i : Nat} {t : Table κ α} (distinct : (keys t).Nodup)
    (h : t[i]? = some (k, v)) : slot? k t = some i := by
  have key : (keys t)[i]? = some k := by
    rw [keys, List.getElem?_map, h]
    rfl
  rcases List.getElem?_eq_some_iff.1 key with ⟨inside, at_⟩
  cases place : slot? k t with
  | none => exact absurd (at_ ▸ List.getElem_mem inside) (slot?_eq_none_iff.1 place)
  | some j =>
    rcases exists_of_slot? place with ⟨w, stands, -⟩
    have key' : (keys t)[j]? = some k := by
      rw [keys, List.getElem?_map, stands]
      rfl
    rcases List.getElem?_eq_some_iff.1 key' with ⟨inside', at_'⟩
    rw [(List.Nodup.getElem_inj_iff distinct).1 (at_'.trans at_.symm)]

theorem get?_of_notMem {k : κ} {t : Table κ α} (h : k ∉ keys t) : get? k t = none := by
  induction t with
  | nil => rfl
  | cons p t ih =>
    rcases p with ⟨j, w⟩
    have other : j ≠ k := fun same => h (same ▸ List.mem_cons_self)
    rw [get?, if_neg other]
    exact ih fun later => h (List.mem_cons_of_mem _ later)

/-- A new key gets the place behind the others; all other keys keep theirs. -/
theorem slot?_insert (j k : κ) (v : α) (t : Table κ α) :
    slot? j (insert k v t) = if j = k then some ((slot? k t).getD t.length) else slot? j t := by
  induction t with
  | nil =>
    by_cases same : j = k
    · simp [insert, slot?, same]
    · have other : k ≠ j := fun e => same e.symm
      simp [insert, slot?, same, other]
  | cons p t ih =>
    rcases p with ⟨i, w⟩
    by_cases here : i = k
    · subst here
      by_cases same : j = i
      · simp [insert, slot?, same]
      · have other : i ≠ j := fun e => same e.symm
        simp [insert, slot?, same, other]
    · by_cases same : j = k
      · subst same
        simp only [insert, slot?, here, if_false, ih, if_true, List.length_cons]
        cases slot? j t <;> simp
      · by_cases first : i = j
        · simp [insert, slot?, first, same]
        · simp [insert, slot?, here, first, same, ih]

/-- The values of a table, with one put at the place of its key. -/
theorem map_snd_insert_of_slot? {k : κ} {i : Nat} {t : Table κ α} (h : slot? k t = some i) (v : α) :
    (insert k v t).map Prod.snd = (t.map Prod.snd).set i v := by
  induction t generalizing i with
  | nil => cases h
  | cons p t ih =>
    rcases p with ⟨j, w⟩
    rw [slot?] at h
    split at h
    · rename_i same
      cases h
      simp [insert, same]
    · rename_i other
      rcases Option.map_eq_some_iff.1 h with ⟨i, place, rfl⟩
      simp [insert, other, ih place]

/-- Each key leads to the value beside it. -/
theorem map_get?_keys {t : Table κ α} (distinct : (keys t).Nodup) :
    (keys t).map (get? · t) = (t.map Prod.snd).map some := by
  induction t with
  | nil => rfl
  | cons p t ih =>
    rcases p with ⟨j, w⟩
    rcases List.nodup_cons.1 distinct with ⟨new, rest⟩
    have others : ∀ k ∈ keys t, get? k ((j, w) :: t) = get? k t := fun k later => by
      have other : j ≠ k := fun same => new (same ▸ later)
      rw [get?, if_neg other]
    change get? j ((j, w) :: t) :: (keys t).map (get? · ((j, w) :: t)) = _
    rw [List.map_congr_left others, ih rest, get?, if_pos rfl]
    rfl

/-! ## All insertions -/

/-- Inserts values at their keys, from left to right. -/
def insertAll (t : Table κ α) (items : List (κ × α)) : Table κ α :=
  items.foldl (fun t item => t.insert item.1 item.2) t

theorem insertAll_concat (t : Table κ α) (items : List (κ × α)) (k : κ) (v : α) :
    t.insertAll (items ++ [(k, v)]) = (t.insertAll items).insert k v :=
  List.foldl_append

/-- The keys in the order in which they come first. -/
theorem keys_insertAll (items : List (κ × α)) :
    keys (insertAll [] items) = (items.map Prod.fst).eraseDups := by
  induction items using List.reverseRecOn with
  | nil => rfl
  | append_singleton items item ih =>
    rcases item with ⟨k, v⟩
    rw [insertAll_concat, keys_insert, ih, List.map_append, List.eraseDups_append]
    by_cases there : k ∈ items.map Prod.fst
    · have repeated : [k].removeAll (items.map Prod.fst) = [] := by
        simp [List.removeAll, there]
      rw [if_pos (List.mem_eraseDups.2 there), List.map_singleton, repeated, List.eraseDups_nil,
        List.append_nil]
    · have new : [k].removeAll (items.map Prod.fst) = [k] := by
        simp [List.removeAll, there]
      rw [if_neg fun again => there (List.mem_eraseDups.1 again), List.map_singleton, new]
      rfl

theorem nodup_keys_insertAll (items : List (κ × α)) : (keys (insertAll [] items)).Nodup := by
  induction items using List.reverseRecOn with
  | nil => exact List.nodup_nil
  | append_singleton items item ih =>
    rw [insertAll_concat]
    exact nodup_keys_insert ih _ _

/-- The value that comes last. -/
theorem get?_insertAll (items : List (κ × α)) (k : κ) :
    get? k (insertAll [] items) = items.reverse.lookup k := by
  induction items using List.reverseRecOn with
  | nil => rfl
  | append_singleton items item ih =>
    rcases item with ⟨j, v⟩
    rw [insertAll_concat, get?_insert, ih, List.reverse_concat, List.lookup_cons]
    by_cases same : k = j
    · rw [if_pos same, same, beq_self_eq_true]
    · rw [if_neg same, beq_false_of_ne same]

/-- What stands in the table was inserted. -/
theorem mem_of_mem_insertAll {items : List (κ × α)} {item : κ × α} (h : item ∈ insertAll [] items) :
    item ∈ items := by
  induction items using List.reverseRecOn with
  | nil => exact h
  | append_singleton items last ih =>
    rw [insertAll_concat] at h
    rcases mem_insert h with rfl | before
    · exact List.mem_append_right _ (List.mem_singleton_self _)
    · exact List.mem_append_left _ (ih before)

end Table

/-! ## Following a table -/

namespace IndexedTable

/-- The same entries stand in the same order, and the index gives the place of each key. -/
structure Follows (h : IndexedTable κ α) (t : Table κ α) : Prop where
  index : ∀ k, h.index.get? k = t.slot? k
  entries : h.entries = t.map Prod.snd

variable {h : IndexedTable κ α} {t : Table κ α}

theorem Follows.size (follows : h.Follows t) : h.size = t.length := by
  rw [IndexedTable.size, follows.entries, List.length_map]

theorem Follows.empty : (empty : IndexedTable κ α).Follows [] :=
  ⟨fun _ => rfl, rfl⟩

/-- An insertion succeeds and goes where it goes in the table. -/
theorem Follows.insert? (follows : h.Follows t) (k : κ) (v : α) :
    ∃ h', h.insert? k v = some h' ∧ h'.Follows (t.insert k v) := by
  unfold IndexedTable.insert?
  rw [follows.index]
  cases place : t.slot? k with
  | some slot =>
    have inside : slot < h.size := by
      rcases Table.exists_of_slot? place with ⟨w, stands, -⟩
      rw [follows.size]
      exact (List.getElem?_eq_some_iff.1 stands).1
    refine ⟨_, if_pos inside, fun j => ?_, ?_⟩
    · rw [follows.index, Table.slot?_insert, place]
      by_cases same : j = k
      · rw [if_pos same, same, place]
        rfl
      · rw [if_neg same]
    · rw [Table.map_snd_insert_of_slot? place, ← follows.entries]
  | none =>
    refine ⟨_, rfl, fun j => ?_, ?_⟩
    · rw [Table.get?_insert, Table.slot?_insert, place, follows.index, follows.size]
      rfl
    · rw [Table.insert_of_notMem (Table.slot?_eq_none_iff.1 place), List.map_append, follows.entries]
      rfl

theorem Follows.insertAll? (follows : h.Follows t) (items : List (κ × α)) :
    ∃ h', h.insertAll? items = some h' ∧ h'.Follows (t.insertAll items) := by
  induction items generalizing h t with
  | nil => exact ⟨h, rfl, follows⟩
  | cons item rest ih =>
    rcases item with ⟨k, v⟩
    rcases follows.insert? k v with ⟨next, inserted, follows⟩
    rcases ih follows with ⟨last, others, follows⟩
    refine ⟨last, ?_, follows⟩
    rw [IndexedTable.insertAll?, inserted]
    exact others

theorem Follows.get? (follows : h.Follows t) (k : κ) : h.get? k = some (t.get? k) := by
  unfold IndexedTable.get?
  rw [follows.index, follows.entries]
  cases place : t.slot? k with
  | none => rw [Table.get?_of_notMem (Table.slot?_eq_none_iff.1 place)]
  | some slot =>
    rcases Table.exists_of_slot? place with ⟨v, stands, value⟩
    simp [stands, value]

end IndexedTable
end Script
