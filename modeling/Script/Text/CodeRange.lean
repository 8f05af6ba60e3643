/-!
# Ranges of code points

A property of characters is a list of ranges of code points, in ascending order and with both ends
included. Properties that exclude one another are told apart by walking their lists side by side, so
that a table of many properties can be checked as a whole.

Main statement: `find?_of_areExclusive`, by which the order of such a table does not matter.
-/

namespace Script

/-- Does a character lie in one of the ranges? -/
def inRanges (ranges : List (Nat × Nat)) (c : Char) : Bool :=
  ranges.any fun (low, high) => decide (low ≤ c.toNat) && decide (c.toNat ≤ high)

theorem inRanges_iff {ranges : List (Nat × Nat)} {c : Char} :
    inRanges ranges c = true ↔ ∃ r ∈ ranges, r.1 ≤ c.toNat ∧ c.toNat ≤ r.2 := by
  simp [inRanges]

/-! ## Order -/

/-- Are the ranges in ascending order, with a gap between any two? -/
def areApart : List (Nat × Nat) → Bool
  | [] => true
  | [r] => decide (r.1 ≤ r.2)
  | r :: s :: ranges => decide (r.1 ≤ r.2) && decide (r.2 + 1 < s.1) && areApart (s :: ranges)

/-- No range is empty, and each lies below those behind it. -/
structure Ascending (ranges : List (Nat × Nat)) : Prop where
  nonempty : ∀ r ∈ ranges, r.1 ≤ r.2
  below : ranges.Pairwise fun r s => r.2 < s.1

theorem Ascending.sublist {ranges others : List (Nat × Nat)} (h : Ascending ranges)
    (part : others.Sublist ranges) : Ascending others where
  nonempty := fun r here => h.nonempty r (part.subset here)
  below := h.below.sublist part

/-- The first range starts below all others. -/
theorem Ascending.first_lt {r : Nat × Nat} {ranges : List (Nat × Nat)} (h : Ascending (r :: ranges)) :
    ∀ s ∈ ranges, r.1 < s.1 := by
  intro s here
  have nonempty : r.1 ≤ r.2 := h.nonempty r List.mem_cons_self
  have below : r.2 < s.1 := (List.pairwise_cons.1 h.below).1 s here
  omega

theorem ascending_of_areApart {ranges : List (Nat × Nat)} (h : areApart ranges = true) :
    Ascending ranges := by
  induction ranges with
  | nil => exact ⟨List.forall_mem_nil _, .nil⟩
  | cons r ranges ih =>
    cases ranges with
    | nil => exact ⟨List.forall_mem_singleton.2 (of_decide_eq_true h), List.pairwise_singleton _ r⟩
    | cons s ranges =>
      simp only [areApart, Bool.and_eq_true, decide_eq_true_eq] at h
      rcases h with ⟨⟨nonempty, gap⟩, others⟩
      have behind : Ascending (s :: ranges) := ih others
      refine ⟨List.forall_mem_cons.2 ⟨nonempty, behind.nonempty⟩, ?_⟩
      refine List.pairwise_cons.2 ⟨?_, behind.below⟩
      -- The next range lies above this one, and the others above the next.
      intro t here
      rcases List.mem_cons.1 here with rfl | later
      · omega
      · have above : s.1 < t.1 := behind.first_lt t later
        omega

/-! ## Two properties -/

/-- Does no range of the one list meet a range of the other? Both are in ascending order, so what lies
below the first range is below all of them, and only the first that is left can meet it. -/
def areDisjoint : List (Nat × Nat) → List (Nat × Nat) → Bool
  | [], _ => true
  | r :: ranges, others =>
    let left := others.dropWhile fun s => decide (s.2 < r.1)
    (left.head?.all fun s => decide (r.2 < s.1)) && areDisjoint ranges left

/-- What is not left lies below the range. -/
theorem mem_or_below {others : List (Nat × Nat)} {s : Nat × Nat} (low : Nat) (here : s ∈ others) :
    s ∈ others.dropWhile (fun s => decide (s.2 < low)) ∨ s.2 < low := by
  induction others with
  | nil => cases here
  | cons t others ih =>
    by_cases below : t.2 < low
    · rw [List.dropWhile_cons_of_pos (by simpa using below)]
      rcases List.mem_cons.1 here with rfl | later
      · exact .inr below
      · exact ih later
    · rw [List.dropWhile_cons_of_neg (by simpa using below)]
      exact .inl here

/-- What is left lies above the range, if the first of it does. -/
theorem above_of_head {others : List (Nat × Nat)} (ascending : Ascending others) {high : Nat}
    (first : (others.head?.all fun s => decide (high < s.1)) = true) :
    ∀ s ∈ others, high < s.1 := by
  intro s here
  cases others with
  | nil => cases here
  | cons t others =>
    have lowest : high < t.1 := by simpa using first
    rcases List.mem_cons.1 here with rfl | later
    · exact lowest
    · exact Nat.lt_trans lowest (ascending.first_lt s later)

/-- Ranges that are told apart have no code point in common. -/
theorem lt_or_lt_of_areDisjoint {ranges others : List (Nat × Nat)} (ascending : Ascending ranges)
    (ascending' : Ascending others) (disjoint : areDisjoint ranges others = true) :
    ∀ r ∈ ranges, ∀ s ∈ others, r.2 < s.1 ∨ s.2 < r.1 := by
  induction ranges generalizing others with
  | nil => exact List.forall_mem_nil _
  | cons q ranges ih =>
    rcases Bool.and_eq_true_iff.1 disjoint with ⟨first, rest⟩
    have left : Ascending (others.dropWhile fun s => decide (s.2 < q.1)) :=
      ascending'.sublist (List.dropWhile_sublist _)
    have behind : Ascending ranges := ascending.sublist (List.sublist_cons_self q ranges)
    intro r here s there
    rcases mem_or_below q.1 there with stays | below
    · rcases List.mem_cons.1 here with rfl | later
      · exact .inl (above_of_head left first s stays)
      · exact ih behind left rest r later s stays
    -- What lies below the first range lies below all of them.
    · rcases List.mem_cons.1 here with rfl | later
      · exact .inr below
      · exact .inr (Nat.lt_trans below (ascending.first_lt r later))

theorem not_inRanges_of_areDisjoint {ranges others : List (Nat × Nat)} (apart : areApart ranges = true)
    (apart' : areApart others = true) (disjoint : areDisjoint ranges others = true) {c : Char}
    (here : inRanges ranges c = true) : ¬ inRanges others c = true := by
  intro there
  rcases inRanges_iff.1 here with ⟨r, listed, low, high⟩
  rcases inRanges_iff.1 there with ⟨s, listed', low', high'⟩
  have ascending := ascending_of_areApart apart
  have ascending' := ascending_of_areApart apart'
  have misses := lt_or_lt_of_areDisjoint ascending ascending' disjoint r listed s listed'
  omega

/-! ## A table of properties -/

/-- Are all lists in order, and does none of them meet another? -/
def areExclusive : List (List (Nat × Nat)) → Bool
  | [] => true
  | ranges :: others =>
    areApart ranges && others.all (areDisjoint ranges) && areExclusive others

theorem areApart_of_areExclusive {lists : List (List (Nat × Nat))} (h : areExclusive lists = true) :
    ∀ ranges ∈ lists, areApart ranges = true := by
  induction lists with
  | nil => exact List.forall_mem_nil _
  | cons ranges others ih =>
    simp only [areExclusive, Bool.and_eq_true] at h
    exact List.forall_mem_cons.2 ⟨h.1.1, ih h.2⟩

/-- A character with the first property has none of the others. -/
theorem not_inRanges_of_areExclusive {ranges others : List (Nat × Nat)}
    {lists : List (List (Nat × Nat))} (exclusive : areExclusive (ranges :: lists) = true) {c : Char}
    (here : inRanges ranges c = true) (listed : others ∈ lists) : ¬ inRanges others c = true := by
  have apart := List.forall_mem_cons.1 (areApart_of_areExclusive exclusive)
  simp only [areExclusive, Bool.and_eq_true, List.all_eq_true] at exclusive
  have disjoint : areDisjoint ranges others = true := exclusive.1.2 others listed
  exact not_inRanges_of_areDisjoint apart.1 (apart.2 others listed) disjoint here

/-- In a table whose properties exclude one another the property of a character is found wherever it
stands. -/
theorem find?_of_areExclusive {α : Type} {table : List (α × List (Nat × Nat))}
    (exclusive : areExclusive (table.map Prod.snd) = true) {own : α × List (Nat × Nat)}
    (listed : own ∈ table) {c : Char} (here : inRanges own.2 c = true) :
    table.find? (fun entry => inRanges entry.2 c) = some own := by
  induction table with
  | nil => cases listed
  | cons entry table ih =>
    rcases List.mem_cons.1 listed with rfl | later
    · exact List.find?_cons_of_pos here
    -- The entry in front excludes the one that is looked for, so it is passed over.
    · have passed : ¬ inRanges entry.2 c = true := by
        intro there
        exact not_inRanges_of_areExclusive exclusive there (List.mem_map_of_mem later) here
      have others : areExclusive (table.map Prod.snd) = true := (Bool.and_eq_true_iff.1 exclusive).2
      have skip := List.find?_cons_of_neg (p := fun entry => inRanges entry.2 c) (l := table) passed
      exact skip.trans (ih others later)

end Script
