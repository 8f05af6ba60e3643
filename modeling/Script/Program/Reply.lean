import Script.Program.ParseError

/-!
# Replies

A phrase is read from a list of tokens whose head is the phrase's first token. The reply tells what
was built, or why the phrase does not fit; which errors were recorded inside blocks on the way; and
where reading stopped. The cursor of a reply is the list of tokens from the last one that was
consumed: its tail is what lies ahead, and it is empty at the end of the input.

Reading never goes back. `Step ts α` is a reply whose cursor is no longer than `ts`, which is what
makes recursive readers end.
-/

namespace Script

/-! ## Replies -/

structure Reply (α : Type) where
  outcome : Except ParseError α
  recorded : List Diagnostic
  cursor : List Token

namespace Reply

variable {α β : Type}

/-- The phrase is complete. -/
def done (a : α) (ts : List Token) : Reply α :=
  ⟨.ok a, [], ts⟩

/-- The phrase does not fit. -/
def fail (e : ParseError) (ts : List Token) : Reply α :=
  ⟨.error e, [], ts⟩

/-- Goes on with what was built, from the cursor, unless reading failed. -/
def bind (r : Reply α) (f : α → List Token → Reply β) : Reply β :=
  match r.outcome with
  | .ok a => ⟨(f a r.cursor).outcome, r.recorded ++ (f a r.cursor).recorded, (f a r.cursor).cursor⟩
  | .error e => ⟨.error e, r.recorded, r.cursor⟩

/-- Applies `g` to what was built. -/
def map (g : α → β) (r : Reply α) : Reply β :=
  ⟨r.outcome.map g, r.recorded, r.cursor⟩

/-- All errors of a reply: the recorded ones, then the one that ended it. -/
def errors (r : Reply α) : List Diagnostic :=
  match r.outcome with
  | .ok _ => r.recorded
  | .error e => r.recorded ++ [e.locate r.cursor]

/-- What was built, as a list of at most one item. -/
def built (r : Reply α) : List α :=
  match r.outcome with
  | .ok a => [a]
  | .error _ => []

/-- Goes on behind the token at the cursor, whether reading failed or not. What did not fit is
recorded and left out. -/
def collect (r : Reply α) (f : List Token → Reply (List α)) : Reply (List α) :=
  let others := f r.cursor.tail
  ⟨others.outcome.map (r.built ++ ·), r.errors ++ others.recorded, others.cursor⟩

@[simp]
theorem done_bind (a : α) (ts : List Token) (f : α → List Token → Reply β) :
    (done a ts).bind f = f a ts := by
  simp [done, bind]

@[simp]
theorem fail_bind (e : ParseError) (ts : List Token) (f : α → List Token → Reply β) :
    (fail e ts).bind f = fail e ts := by
  simp [fail, bind]

theorem bind_assoc {γ : Type} (r : Reply α) (f : α → List Token → Reply β)
    (g : β → List Token → Reply γ) :
    (r.bind f).bind g = r.bind fun a ts => (f a ts).bind g := by
  obtain ⟨outcome, recorded, cursor⟩ := r
  cases outcome with
  | error e => simp [bind]
  | ok a => cases h : (f a cursor).outcome <;> simp [bind, h]

theorem map_eq_bind (g : α → β) (r : Reply α) : r.map g = r.bind fun a ts => done (g a) ts := by
  obtain ⟨outcome, recorded, cursor⟩ := r
  cases outcome <;> simp [map, bind, done, Except.map]

end Reply

/-! ## Replies that do not go back -/

def Step (ts : List Token) (α : Type) : Type :=
  { r : Reply α // r.cursor.length ≤ ts.length }

namespace Step

variable {α β : Type} {ts us : List Token}

/-- The reply itself. -/
def reply (x : Step ts α) : Reply α :=
  x.val

theorem cursor_le (x : Step ts α) : x.reply.cursor.length ≤ ts.length :=
  x.property

/-- The phrase is complete, and its last token is the head of `us`. -/
def done (a : α) (us : List Token) (h : us.length ≤ ts.length) : Step ts α :=
  ⟨.done a us, h⟩

/-- The phrase is complete, and its last token is the head of `ts`. -/
def here (a : α) : Step ts α :=
  ⟨.done a ts, Nat.le_refl _⟩

/-- The phrase does not fit, and reading stops at `ts`. -/
def fail (e : ParseError) : Step ts α :=
  ⟨.fail e ts, Nat.le_refl _⟩

/-- A step from further on is a step from `ts`. -/
def within (x : Step us α) (h : us.length ≤ ts.length) : Step ts α :=
  ⟨x.reply, Nat.le_trans x.cursor_le h⟩

/-- Goes on with what was built, from a cursor that is known to be no longer than `ts`. -/
def bind (x : Step ts α) (f : α → (us : List Token) → us.length ≤ ts.length → Step us β) :
    Step ts β :=
  match x with
  | ⟨⟨.ok a, recorded, us⟩, h⟩ =>
    let y := (f a us h).reply
    ⟨⟨y.outcome, recorded ++ y.recorded, y.cursor⟩, Nat.le_trans (f a us h).cursor_le h⟩
  | ⟨⟨.error e, recorded, us⟩, h⟩ => ⟨⟨.error e, recorded, us⟩, h⟩

def map (g : α → β) (x : Step ts α) : Step ts β :=
  ⟨x.reply.map g, x.cursor_le⟩

/-- Goes on behind the token at the cursor, whether reading failed or not. -/
def collect (x : Step ts α) (f : (us : List Token) → us.length ≤ ts.length - 1 → Step us (List α)) :
    Step ts (List α) :=
  let le : x.reply.cursor.tail.length ≤ ts.length - 1 := by
    rw [List.length_tail]
    exact Nat.sub_le_sub_right x.cursor_le 1
  let others := f x.reply.cursor.tail le
  ⟨⟨others.reply.outcome.map (x.reply.built ++ ·), x.reply.errors ++ others.reply.recorded,
      others.reply.cursor⟩,
    Nat.le_trans others.cursor_le (Nat.le_trans le (Nat.sub_le _ _))⟩

@[simp]
theorem reply_done (a : α) (h : us.length ≤ ts.length) : (done a us h).reply = .done a us := rfl

@[simp]
theorem reply_here (a : α) : (here a : Step ts α).reply = .done a ts := rfl

@[simp]
theorem reply_fail (e : ParseError) : (fail e : Step ts α).reply = .fail e ts := rfl

@[simp]
theorem reply_within (x : Step us α) (h : us.length ≤ ts.length) :
    (x.within h).reply = x.reply := rfl

@[simp]
theorem reply_map (g : α → β) (x : Step ts α) : (x.map g).reply = x.reply.map g := rfl

/-- A continuation that does not look at the bound is a continuation of the reply. -/
theorem reply_bind {x : Step ts α}
    {f : α → (us : List Token) → us.length ≤ ts.length → Step us β} {g : α → List Token → Reply β}
    (h : ∀ a us le, (f a us le).reply = g a us) : (x.bind f).reply = x.reply.bind g := by
  obtain ⟨⟨outcome, recorded, cursor⟩, le⟩ := x
  cases outcome with
  | error e => rfl
  | ok a => simp [bind, reply, Reply.bind, ← h a cursor le]

theorem reply_collect {x : Step ts α}
    {f : (us : List Token) → us.length ≤ ts.length - 1 → Step us (List α)}
    {g : List Token → Reply (List α)} (h : ∀ us le, (f us le).reply = g us) :
    (x.collect f).reply = x.reply.collect g := by
  simp only [collect, Reply.collect, reply, ← h _ (by
    rw [List.length_tail]
    exact Nat.sub_le_sub_right x.cursor_le 1 : x.val.cursor.tail.length ≤ ts.length - 1)]

end Step
end Script
