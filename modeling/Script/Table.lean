/-!
# Tables in order of insertion

A table is a list of keys with their values. A key that is inserted again keeps its place and gets
the new value, so the keys stand in the order of their first insertion and none stands twice.
-/

namespace Script

abbrev Table (κ α : Type) := List (κ × α)

namespace Table

variable {κ α : Type} [DecidableEq κ]

/-- Puts `v` at `k`: in the place of an equal key, or at the end. -/
def insert (k : κ) (v : α) : Table κ α → Table κ α
  | [] => [(k, v)]
  | (j, w) :: t => if j = k then (k, v) :: t else (j, w) :: insert k v t

/-- The value at `k`. -/
def get? (k : κ) : Table κ α → Option α
  | [] => none
  | (j, w) :: t => if j = k then some w else get? k t

/-- The place of `k` in the order of insertion. -/
def slot? (k : κ) : Table κ α → Option Nat
  | [] => none
  | (j, _) :: t => if j = k then some 0 else (slot? k t).map (· + 1)

/-- The keys in order of insertion. -/
def keys (t : Table κ α) : List κ :=
  t.map Prod.fst

/-! ## Looking up after an insertion -/

@[simp]
theorem get?_nil (k : κ) : get? k ([] : Table κ α) = none := rfl

theorem get?_insert_self (k : κ) (v : α) (t : Table κ α) : get? k (insert k v t) = some v := by
  induction t with
  | nil => simp [insert, get?]
  | cons p t ih =>
    obtain ⟨j, w⟩ := p
    by_cases h : j = k <;> simp [insert, get?, h, ih]

theorem get?_insert_of_ne {j k : κ} (h : j ≠ k) (v : α) (t : Table κ α) :
    get? j (insert k v t) = get? j t := by
  induction t with
  | nil => simp [insert, get?, Ne.symm h]
  | cons p t ih =>
    obtain ⟨i, w⟩ := p
    by_cases hi : i = k
    · subst hi
      simp [insert, get?, Ne.symm h]
    · simp [insert, get?, hi, ih]

theorem get?_insert (j k : κ) (v : α) (t : Table κ α) :
    get? j (insert k v t) = if j = k then some v else get? j t := by
  by_cases h : j = k
  · subst h
    simp [get?_insert_self]
  · simp [h, get?_insert_of_ne h]

/-! ## The order of keys -/

/-- A key that is there keeps the order of keys; a new one comes last. -/
theorem keys_insert (k : κ) (v : α) (t : Table κ α) :
    keys (insert k v t) = if k ∈ keys t then keys t else keys t ++ [k] := by
  induction t with
  | nil => simp [insert, keys]
  | cons p t ih =>
    obtain ⟨j, w⟩ := p
    by_cases h : j = k
    · subst h
      simp [insert, keys]
    · by_cases hk : k ∈ keys t
      · simp_all [insert, keys]
      · simp_all [insert, keys, Ne.symm h]

/-- A new key comes last, with its value. -/
theorem insert_of_notMem {k : κ} {t : Table κ α} (new : k ∉ keys t) (v : α) :
    insert k v t = t ++ [(k, v)] := by
  induction t with
  | nil => rfl
  | cons p t ih =>
    rcases p with ⟨j, w⟩
    have other : j ≠ k := fun same => new (same ▸ List.mem_cons_self)
    have later : k ∉ keys t := fun here => new (List.mem_cons_of_mem _ here)
    rw [insert, if_neg other, ih later]
    rfl

theorem nodup_keys_insert {t : Table κ α} (h : (keys t).Nodup) (k : κ) (v : α) :
    (keys (insert k v t)).Nodup := by
  rw [keys_insert]
  split
  · exact h
  · rename_i hk
    exact List.nodup_append.2 ⟨h, by simp, by
      intro a ha b hb
      rw [List.mem_singleton] at hb
      subst hb
      exact fun e => hk (e ▸ ha)⟩

/-! ## What stands in a table -/

/-- What is found in a table stands there. -/
theorem mem_of_get? {k : κ} {v : α} {t : Table κ α}
    (h : get? k t = some v) : (k, v) ∈ t := by
  induction t with
  | nil => cases h
  | cons p t ih =>
    rcases p with ⟨j, w⟩
    unfold get? at h
    split at h
    · rename_i same
      rw [same, Option.some.inj h]
      exact List.mem_cons_self
    · exact List.mem_cons_of_mem _ (ih h)

/-- What stands in a table after an insertion was inserted or stood there before. -/
theorem mem_insert {k : κ} {v : α} {t : Table κ α} {p : κ × α}
    (h : p ∈ insert k v t) : p = (k, v) ∨ p ∈ t := by
  induction t with
  | nil => exact .inl (List.mem_singleton.1 h)
  | cons q t ih =>
    rcases q with ⟨j, w⟩
    unfold insert at h
    split at h
    · rcases List.mem_cons.1 h with new | old
      · exact .inl new
      · exact .inr (List.mem_cons_of_mem _ old)
    · rcases List.mem_cons.1 h with same | old
      · exact .inr (same ▸ List.mem_cons_self)
      · exact (ih old).imp_right (List.mem_cons_of_mem _)

end Table
end Script
