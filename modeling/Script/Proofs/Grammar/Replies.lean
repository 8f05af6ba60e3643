import Script.Program.Parse.Equations

/-!
# Complete replies

When a combined reply is complete, with nothing recorded on the way, its parts are complete. Each
lemma here takes one way of combining replies apart.
-/

namespace Script

/-! ## Combined replies -/

namespace Reply

variable {α β : Type} {r : Reply α} {us : List Token}

@[simp]
theorem done_inj {a b : α} {ts : List Token} : done a ts = done b us ↔ a = b ∧ ts = us := by
  simp [done]

@[simp]
theorem fail_ne_done {e : ParseError} {a : α} {ts : List Token} : fail e ts ≠ done a us := by
  simp [fail, done]

@[simp]
theorem done_map (g : α → β) (a : α) (ts : List Token) : (done a ts).map g = done (g a) ts := rfl

theorem bind_eq_done_iff {f : α → List Token → Reply β} {b : β} :
    r.bind f = done b us ↔ ∃ a vs, r = done a vs ∧ f a vs = done b us := by
  constructor
  · intro h
    rcases r with ⟨_ | a, recorded, cursor⟩
    · simp [bind, done] at h
    -- Nothing is recorded in the whole, so nothing is recorded in either part.
    · simp only [bind, done, Reply.mk.injEq, List.append_eq_nil_iff] at h
      rcases h with ⟨outcome, ⟨rfl, silent⟩, rfl⟩
      refine ⟨a, cursor, rfl, ?_⟩
      simp [done, ← outcome, ← silent]
  · intro h
    rcases h with ⟨a, vs, rfl, complete⟩
    simpa using complete

theorem map_eq_done_iff {g : α → β} {b : β} :
    r.map g = done b us ↔ ∃ a, r = done a us ∧ g a = b := by
  rw [map_eq_bind, bind_eq_done_iff]
  constructor
  · intro h
    rcases h with ⟨a, vs, read, built⟩
    rcases done_inj.1 built with ⟨rfl, rfl⟩
    exact ⟨a, read, rfl⟩
  · intro h
    rcases h with ⟨a, read, rfl⟩
    exact ⟨a, us, read, rfl⟩

/-- A collection is complete only if the item that went in fits: one that does not is recorded. -/
theorem collect_eq_done_iff {f : List Token → Reply (List α)} {items : List α} :
    r.collect f = done items us ↔
      ∃ a vs others, r = done a vs ∧ f vs.tail = done others us ∧ items = a :: others := by
  constructor
  · intro h
    rcases r with ⟨_ | a, recorded, cursor⟩
    · simp [collect, done, errors] at h
    · simp only [collect, done, errors, built, Reply.mk.injEq, List.append_eq_nil_iff] at h
      rcases h with ⟨outcome, ⟨rfl, silent⟩, rfl⟩
      -- The reading goes on in any case; it is complete only if both parts are.
      rcases following : f cursor.tail with ⟨_ | others, later, rest⟩
      · simp [following, Except.map] at outcome
      · simp only [following, Except.map, Except.ok.injEq] at outcome silent
        exact ⟨a, cursor, others, rfl, by simp [following, silent, done], outcome.symm⟩
  · intro h
    rcases h with ⟨a, vs, others, rfl, following, rfl⟩
    simp [collect, done, errors, built, following, Except.map]

/-- A complete reply has no errors, and a reply without errors is complete. -/
theorem errors_eq_nil_iff : r.errors = [] ↔ ∃ a, r = done a r.cursor := by
  rcases r with ⟨_ | a, recorded, cursor⟩
  · simp [errors, done]
  · simp [errors, done]

end Reply

/-- A complete step has not gone back. -/
theorem Step.length_le_of_done {α : Type} {ts us : List Token} {a : α} {x : Step ts α}
    (h : x.reply = .done a us) : us.length ≤ ts.length := by
  have le := x.cursor_le
  rw [h] at le
  exact le

/-! ## Tokens -/

theorem headKind_eq_symbol_iff {ts : List Token} {s : Symbol} :
    headKind ts = .symbol s ↔ ∃ rest, ts = .symbol s :: rest := by
  cases ts with
  | nil => simp
  | cons t rest => cases t <;> simp [Token.kind]

theorem headKind_eq_keyword_iff {ts : List Token} {k : Keyword} :
    headKind ts = .keyword k ↔ ∃ rest, ts = .keyword k :: rest := by
  cases ts with
  | nil => simp
  | cons t rest => cases t <;> simp [Token.kind]

theorem headKind_eq_ident_iff {ts : List Token} :
    headKind ts = .ident ↔ ∃ x rest, ts = .ident x :: rest := by
  cases ts with
  | nil => simp
  | cons t rest => cases t <;> simp [Token.kind]

theorem headKind_eq_eof_iff {ts : List Token} : headKind ts = .eof ↔ ts = [] := by
  cases ts with
  | nil => simp
  | cons t rest => simp [t.kind_ne_eof]

/-- A literal denotes the integer with its value, if there is one. -/
theorem Integer.ofLiteral?_eq_some_iff {digits : List Char} {n : Int64} :
    Integer.ofLiteral? digits = some n ↔ n.toInt = Decimal.toNat digits := by
  unfold ofLiteral? ofInt?
  constructor
  · intro h
    split at h
    · rename_i inRange
      rcases inRange with ⟨lower, upper⟩
      have above : (-2 ^ 63 : Int) ≤ Decimal.toNat digits :=
        calc (-2 ^ 63 : Int)
          _ = least := Int64.toInt_minValue.symm
          _ ≤ Decimal.toNat digits := lower
      have below : (Decimal.toNat digits : Int) ≤ 2 ^ 63 - 1 :=
        calc (Decimal.toNat digits : Int)
          _ ≤ greatest := upper
          _ = 2 ^ 63 - 1 := Int64.toInt_maxValue
      rw [← Option.some.inj h]
      exact Int64.toInt_ofInt_of_le above (Int.lt_of_le_sub_one below)
    · cases h
  · intro h
    have lower : least ≤ n.toInt := n.minValue_le_toInt
    have upper : n.toInt ≤ greatest := n.toInt_le
    rw [← h, if_pos ⟨lower, upper⟩, Int64.ofInt_toInt]

namespace Parse

variable {ts us : List Token}

theorem next_of_tail {s : Symbol} {rest : List Token} (h : ts.tail = .symbol s :: rest) :
    next (.symbol s) ts = .done () (.symbol s :: rest) := by
  rw [next_eq, h]
  simp [Token.kind]

theorem next_eq_done_iff {s : Symbol} {a : Unit} :
    next (.symbol s) ts = .done a us ↔ us = ts.tail ∧ ∃ rest, ts.tail = .symbol s :: rest := by
  rw [next_eq, ← headKind_eq_symbol_iff]
  by_cases there : headKind ts.tail = .symbol s
  · simp [there, eq_comm]
  · simp [there]

theorem nextName_eq_done_iff {x : String} :
    nextName ts = .done x us ↔ us = ts.tail ∧ ∃ rest, ts.tail = .ident x :: rest := by
  -- The name itself is in the token, so the kind alone does not say which one is read.
  by_cases named : headKind ts.tail = .ident
  · rcases headKind_eq_ident_iff.1 named with ⟨y, rest, next⟩
    have read : nextName ts = .done y ts.tail := by
      cases ts with
      | nil => simp at next
      | cons t ts =>
        rw [List.tail_cons] at next
        rw [next, nextName_ident, List.tail_cons]
    simp [read, next, and_comm, eq_comm]
  · rw [nextName_of_ne named]
    simp only [Reply.fail_ne_done, false_iff, not_and, not_exists]
    intro _ rest next
    exact named (headKind_eq_ident_iff.2 ⟨x, rest, next⟩)

end Parse
end Script
