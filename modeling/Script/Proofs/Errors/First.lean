import Script.Proofs.Grammar.Replies

/-!
# First errors

Reading goes on behind an error, but what it is about is the first one. A reply that has no first
error is complete, so a reader up to its first error is a reader that gives up there: each way of
combining replies hands the first error on and goes on from a complete part only.
-/

namespace Script

namespace Reply

variable {α β : Type} {r : Reply α} {d : Diagnostic}

/-- The first error of a reply. -/
def first? (r : Reply α) : Option Diagnostic :=
  r.errors.head?

theorem first?_eq_none_iff : r.first? = none ↔ ∃ a, r = done a r.cursor := by
  rw [first?, List.head?_eq_none_iff, errors_eq_nil_iff]

/-- A reply is complete, or there is a first error. -/
theorem done_or_first (r : Reply α) : (∃ a us, r = done a us) ∨ ∃ d, r.first? = some d := by
  cases first : r.first? with
  | none =>
    rcases first?_eq_none_iff.1 first with ⟨a, complete⟩
    exact .inl ⟨a, _, complete⟩
  | some d => exact .inr ⟨d, rfl⟩

@[simp]
theorem first?_done (a : α) (ts : List Token) : (done a ts).first? = none := rfl

@[simp]
theorem first?_fail (e : ParseError) (ts : List Token) :
    (fail e ts : Reply α).first? = some (e.locate ts) := rfl

/-- A complete reply is complete in one way. -/
@[simp]
theorem exists_eq_done_iff {a : α} {us : List Token} {P : α → List Token → Prop} :
    (∃ b vs, done a us = done b vs ∧ P b vs) ↔ P a us := by
  constructor
  · rintro ⟨b, vs, same, holds⟩
    rcases done_inj.1 same with ⟨rfl, rfl⟩
    exact holds
  · exact fun holds => ⟨a, us, rfl, holds⟩

theorem first?_bind {f : α → List Token → Reply β} :
    (r.bind f).first? = some d ↔
      r.first? = some d ∨ ∃ a us, r = done a us ∧ (f a us).first? = some d := by
  rcases done_or_first r with ⟨a, us, rfl⟩ | ⟨e, first⟩
  · rw [done_bind, exists_eq_done_iff, first?_done]
    simp
  · have incomplete : ∀ a us, r ≠ done a us := by
      rintro a us rfl
      cases first
    -- The error is the first one of the whole, whether reading went on behind it or not.
    have handed : (r.bind f).first? = some e := by
      rcases r with ⟨_ | a, recorded, cursor⟩
      · exact first
      · rcases recorded with _ | ⟨head, others⟩
        · cases first
        · simp only [first?, errors, bind] at first ⊢
          split <;> exact first
    simp [handed, first, incomplete]

@[simp]
theorem first?_map (g : α → β) (r : Reply α) : (r.map g).first? = r.first? := by
  rcases r with ⟨_ | a, recorded, cursor⟩ <;> rfl

theorem done_collect (a : α) (us : List Token) (f : List Token → Reply (List α)) :
    (done a us).collect f = (f us.tail).map (a :: ·) := rfl

theorem first?_collect {f : List Token → Reply (List α)} :
    (r.collect f).first? = some d ↔
      r.first? = some d ∨ ∃ a us, r = done a us ∧ (f us.tail).first? = some d := by
  rcases done_or_first r with ⟨a, us, rfl⟩ | ⟨e, first⟩
  · rw [done_collect, first?_map, exists_eq_done_iff, first?_done]
    simp
  · have incomplete : ∀ a us, r ≠ done a us := by
      rintro a us rfl
      cases first
    have handed : (r.collect f).first? = some e := by
      rcases List.head?_eq_some_iff.1 first with ⟨others, errors⟩
      simp only [first?, Reply.errors, collect] at errors ⊢
      split <;> simp [errors]
    simp [handed, first, incomplete]

end Reply

end Script
