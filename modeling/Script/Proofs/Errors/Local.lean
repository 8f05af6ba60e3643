import Script.Proofs.Errors.First

/-!
# Reading sees one token ahead

Take a list of tokens and exchange an end of it for another. Up to the place where they part, both
lists are read alike: a phrase that is complete in front of that place is the same phrase, and an
error that blames a token in front of it is the same error.

The readers come in two kinds. One that starts at a first token decides by this token; one that goes
on from a cursor decides by the token behind it. `Local n k f` covers both: with `k` tokens in sight
in front of the exchanged end, `f` reads both lists alike, as long as the first one has at most `n`
tokens. It holds of single tokens and is kept by the ways of combining replies, so for each reader it
follows the equation of the reader.
-/

namespace Script

variable {α β : Type}

/-! ## Two replies -/

/-- The first error is in front of the last `m` tokens at the latest, and so is the cursor of a
complete reply for the last `l` tokens. -/
structure Reply.Within (m l : Nat) (r : Reply α) : Prop where
  error : ∀ d, r.first? = some d → d.ahead ≤ m
  cursor : ∀ a us, r = .done a us → us.length ≤ l

/-- The replies to two lists that end in `post` and `post'`. -/
inductive Alike (post post' : List Token) : Reply α → Reply α → Prop
  /-- Both are complete, and what comes next is in front of the ends. -/
  | done {a : α} {u : List Token} : 2 ≤ u.length →
      Alike post post' (.done a (u ++ post)) (.done a (u ++ post'))
  /-- Both blame the same token in front of the ends. -/
  | stuck {r r' : Reply α} {e : ParseError} {j : Nat} :
      r.first? = some ⟨e, j + 1 + post.length⟩ → r'.first? = some ⟨e, j + 1 + post'.length⟩ →
      Alike post post' r r'
  /-- The first one has come to its end. -/
  | beyond {r r' : Reply α} : r.Within post.length (post.length + 1) → Alike post post' r r'

namespace Reply.Within

variable {m l : Nat} {r : Reply α}

theorem done {a : α} {us : List Token} (h : us.length ≤ l) : (Reply.done a us).Within m l where
  error := nofun
  cursor := by
    intro b vs same
    rcases Reply.done_inj.1 same with ⟨-, rfl⟩
    exact h

theorem fail {e : ParseError} {us : List Token} (h : (e.locate us).ahead ≤ m) :
    (Reply.fail e us : Reply α).Within m l where
  error := by
    intro d first
    rw [Reply.first?_fail, Option.some.injEq] at first
    exact first ▸ h
  cursor := fun _ _ same => absurd same Reply.fail_ne_done

theorem bind {f : α → List Token → Reply β} {k : Nat} (h : r.Within m k)
    (others : ∀ a us, r = .done a us → (f a us).Within m l) : (r.bind f).Within m l where
  error := by
    intro d found
    rcases Reply.first?_bind.1 found with first | ⟨a, us, rfl, first⟩
    · exact h.error d first
    · exact (others a us rfl).error d first
  cursor := by
    intro b vs complete
    rcases Reply.bind_eq_done_iff.1 complete with ⟨a, us, rfl, complete⟩
    exact (others a us rfl).cursor b vs complete

theorem collect {f : List Token → Reply (List α)} {k : Nat} (h : r.Within m k)
    (others : ∀ a us, r = .done a us → (f us.tail).Within m l) : (r.collect f).Within m l where
  error := by
    intro d found
    rcases Reply.first?_collect.1 found with first | ⟨a, us, rfl, first⟩
    · exact h.error d first
    · exact (others a us rfl).error d first
  cursor := by
    intro b vs complete
    rcases Reply.collect_eq_done_iff.1 complete with ⟨a, us, items, rfl, complete, -⟩
    exact (others a us rfl).cursor items vs complete

theorem mono {m' l' : Nat} (h : r.Within m l) (errors : m ≤ m') (cursors : l ≤ l') :
    r.Within m' l' where
  error := fun d first => Nat.le_trans (h.error d first) errors
  cursor := fun a us complete => Nat.le_trans (h.cursor a us complete) cursors

end Reply.Within

namespace Alike

variable {post post' : List Token} {r r' : Reply α}

theorem bind {f : α → List Token → Reply β} (h : Alike post post' r r')
    (alike : ∀ a u, 2 ≤ u.length → r = .done a (u ++ post) →
      Alike post post' (f a (u ++ post)) (f a (u ++ post')))
    (within : ∀ a us, us.length ≤ post.length + 1 → r = .done a us →
      (f a us).Within post.length (post.length + 1)) :
    Alike post post' (r.bind f) (r'.bind f) := by
  cases h with
  | done sight =>
    rw [Reply.done_bind, Reply.done_bind]
    exact alike _ _ sight rfl
  | stuck first first' =>
    exact .stuck (Reply.first?_bind.2 (.inl first)) (Reply.first?_bind.2 (.inl first'))
  | beyond h => exact .beyond (h.bind fun a us same => within a us (h.cursor a us same) same)

theorem map (g : α → β) (h : Alike post post' r r') : Alike post post' (r.map g) (r'.map g) := by
  rw [Reply.map_eq_bind, Reply.map_eq_bind]
  exact h.bind (fun _ _ sight _ => .done sight) fun _ _ le _ => .done le

theorem collect {f : List Token → Reply (List α)} (h : Alike post post' r r')
    (alike : ∀ a u, 1 ≤ u.length → (∃ t, r = .done a (t :: u ++ post)) →
      Alike post post' (f (u ++ post)) (f (u ++ post')))
    (within : ∀ a us, us.length ≤ post.length + 1 → r = .done a us →
      (f us.tail).Within post.length (post.length + 1)) :
    Alike post post' (r.collect f) (r'.collect f) := by
  cases h with
  | @done a u sight =>
    rcases u with _ | ⟨t, u⟩
    · cases sight
    · rw [Reply.done_collect, Reply.done_collect]
      exact (alike a u (Nat.le_of_succ_le_succ sight) ⟨t, rfl⟩).map _
  | stuck first first' =>
    exact .stuck (Reply.first?_collect.2 (.inl first)) (Reply.first?_collect.2 (.inl first'))
  | beyond h => exact .beyond (h.collect fun a us same => within a us (h.cursor a us same) same)

end Alike

/-! ## Readers -/

/-- With `k` tokens in sight of lists of at most `n` tokens, the reader does not see further. -/
structure Local (n k : Nat) (f : List Token → Reply α) : Prop where
  sight : k ≤ 2
  within : ∀ ts, ts.length ≤ n → (f ts).Within (ts.length + 1 - k) ts.length
  alike : ∀ u post post', (u ++ post).length ≤ n → k ≤ u.length →
    Alike post post' (f (u ++ post)) (f (u ++ post'))

namespace Local

variable {n k : Nat} {f : List Token → Reply α}

theorem mono {m : Nat} (h : Local n k f) (le : m ≤ n) : Local m k f where
  sight := h.sight
  within := fun ts short => h.within ts (Nat.le_trans short le)
  alike := fun u post post' short sight => h.alike u post post' (Nat.le_trans short le) sight

/-- One token is enough to see that a reader at the cursor goes beyond it. -/
theorem weaken (h : Local n 2 f) : Local n 1 f where
  sight := by decide
  within := fun ts short => (h.within ts short).mono (by omega) (Nat.le_refl _)
  alike := by
    intro u post post' short sight
    by_cases further : 2 ≤ u.length
    · exact h.alike u post post' short further
    · rw [List.length_append] at short
      refine .beyond ((h.within _ (by simpa using short)).mono ?_ ?_)
      · rw [List.length_append]
        omega
      · rw [List.length_append]
        omega

/-- Without tokens nothing is in sight. -/
theorem zero (lower : 1 ≤ k) (upper : k ≤ 2) (h : (f []).Within 0 0) : Local 0 k f where
  sight := upper
  within := by
    intro ts short
    rw [List.eq_nil_of_length_eq_zero (Nat.le_zero.1 short)]
    exact h.mono (Nat.zero_le _) (Nat.le_refl _)
  alike := by
    intro u post post' short further
    rw [List.length_append] at short
    omega

theorem done (a : α) : Local n 2 fun us => .done a us where
  sight := by decide
  within := fun _ _ => .done (Nat.le_refl _)
  alike := fun _ _ _ _ sight => .done sight

/-- What had to be another token stands behind the cursor. -/
theorem failNext (expected found : TokenKind) :
    Local n 2 fun us => (.fail (.unexpected expected found) us : Reply α) where
  sight := by decide
  within := by
    intro ts _
    refine .fail ?_
    rw [ParseError.locate, List.length_tail]
    exact Nat.le_refl _
  alike := by
    intro u post post' _ sight
    have located (rest : List Token) : (.fail (.unexpected expected found) (u ++ rest) :
        Reply α).first? = some ⟨.unexpected expected found, u.length - 2 + 1 + rest.length⟩ := by
      rw [Reply.first?_fail, ParseError.locate, List.length_tail, List.length_append]
      congr 2
      omega
    exact .stuck (located post) (located post')

/-- Any other error blames the token it starts at. -/
theorem failHere {e : ParseError} (here : ∀ ts, e.locate ts = ⟨e, ts.length⟩) :
    Local n 1 fun ts => (.fail e ts : Reply α) where
  sight := by decide
  within := fun ts _ => .fail (by rw [here]; exact Nat.le_refl _)
  alike := by
    intro u post post' _ sight
    have located (rest : List Token) :
        (.fail e (u ++ rest) : Reply α).first? = some ⟨e, u.length - 1 + 1 + rest.length⟩ := by
      rw [Reply.first?_fail, here, List.length_append]
      congr 2
      omega
    exact .stuck (located post) (located post')

theorem noOperand (found : TokenKind) :
    Local n 1 fun ts => (.fail (.noOperand found) ts : Reply α) :=
  failHere fun _ => rfl

theorem outOfRange (digits : String) :
    Local n 1 fun ts => (.fail (.outOfRange digits) ts : Reply α) :=
  failHere fun _ => rfl

theorem bind {g : α → List Token → Reply β} (h : Local n k f) (others : ∀ a, Local n 2 (g a)) :
    Local n k fun ts => (f ts).bind g where
  sight := h.sight
  within := by
    intro ts short
    have small := h.sight
    refine (h.within ts short).bind fun a us complete => ?_
    have le := (h.within ts short).cursor a us complete
    exact ((others a).within us (Nat.le_trans le short)).mono (by omega) le
  alike := by
    intro u post post' short sight
    refine (h.alike u post post' short sight).bind (fun a v further complete => ?_)
      fun a us le complete => ?_
    · have back := (h.within _ short).cursor _ _ complete
      exact (others a).alike v post post' (Nat.le_trans back short) further
    · have back := (h.within _ short).cursor _ _ complete
      exact ((others a).within us (Nat.le_trans back short)).mono (by omega) le

theorem map (g : α → β) (h : Local n k f) : Local n k fun ts => (f ts).map g := by
  simp only [Reply.map_eq_bind]
  exact h.bind fun a => done (g a)

theorem of_eq {g : List Token → Reply α} (h : Local n k g) (same : ∀ ts, f ts = g ts) :
    Local n k f := by
  rw [funext same]
  exact h

theorem collect {g : List Token → Reply (List α)} (h : Local (n + 1) 1 f) (others : Local n 1 g) :
    Local (n + 1) 1 fun ts => (f ts).collect g where
  sight := by decide
  within := by
    intro ts short
    refine (h.within ts short).collect fun a us complete => ?_
    have le := (h.within ts short).cursor a us complete
    have shorter : us.tail.length ≤ us.length - 1 := Nat.le_of_eq List.length_tail
    exact (others.within us.tail (by omega)).mono (by omega) (by omega)
  alike := by
    intro u post post' short sight
    refine (h.alike u post post' short sight).collect (fun a v further complete => ?_)
      fun a us le complete => ?_
    · rcases complete with ⟨t, complete⟩
      have back := (h.within _ short).cursor _ _ complete
      rw [List.cons_append, List.length_cons] at back
      exact others.alike v post post' (by omega) further
    · have back := (h.within _ short).cursor _ _ complete
      have shorter : us.tail.length ≤ us.length - 1 := Nat.le_of_eq List.length_tail
      exact (others.within us.tail (by omega)).mono (by omega) (by omega)

/-- A reader at a first token is a reader at the cursor in front of it. -/
theorem shift (h : Local n 1 f) : Local (n + 1) 2 fun us => f us.tail where
  sight := by decide
  within := by
    intro ts short
    have shorter : ts.tail.length = ts.length - 1 := List.length_tail
    exact (h.within ts.tail (by omega)).mono (by omega) (by omega)
  alike := by
    intro u post post' short sight
    rcases u with _ | ⟨t, u⟩
    · cases sight
    · exact h.alike u post post' (Nat.le_of_succ_le_succ short) (Nat.le_of_succ_le_succ sight)

/-- A reader that decides by its first token. -/
theorem look (empty : ∃ g : List Token → Reply α, Local n 1 g ∧ f [] = g [])
    (told : ∀ t, ∃ g : List Token → Reply α, Local n 1 g ∧ ∀ rest, f (t :: rest) = g (t :: rest)) :
    Local n 1 f where
  sight := by decide
  within := by
    intro ts short
    cases ts with
    | nil =>
      rcases empty with ⟨g, whole, same⟩
      rw [same]
      exact whole.within [] short
    | cons t ts =>
      rcases told t with ⟨g, whole, same⟩
      rw [same]
      exact whole.within (t :: ts) short
  alike := by
    intro u post post' short sight
    cases u with
    | nil => cases sight
    | cons t u =>
      rcases told t with ⟨g, whole, same⟩
      rw [List.cons_append, List.cons_append, same, same]
      exact whole.alike (t :: u) post post' short sight

/-- A reader that decides by the token behind the cursor. -/
theorem peek
    (empty : ∃ g : List Token → Reply α, Local n 2 g ∧ ∀ us : List Token, us.tail = [] → f us = g us)
    (told : ∀ t, ∃ g : List Token → Reply α,
      Local n 2 g ∧ ∀ us rest : List Token, us.tail = t :: rest → f us = g us) : Local n 2 f where
  sight := by decide
  within := by
    intro ts short
    cases next : ts.tail with
    | nil =>
      rcases empty with ⟨g, whole, same⟩
      rw [same ts next]
      exact whole.within ts short
    | cons t rest =>
      rcases told t with ⟨g, whole, same⟩
      rw [same ts rest next]
      exact whole.within ts short
  alike := by
    intro u post post' short sight
    match u, sight with
    | t :: next :: u, sight =>
      rcases told next with ⟨g, whole, same⟩
      rw [same _ _ rfl, same _ _ rfl]
      exact whole.alike _ post post' short sight

/-- A reader that decides by the kind of its first token. -/
theorem lookKind
    (h : ∀ kind, ∃ g : List Token → Reply α, Local n 1 g ∧ ∀ ts, headKind ts = kind → f ts = g ts) :
    Local n 1 f := by
  refine look ?_ fun t => ?_
  · rcases h .eof with ⟨g, whole, same⟩
    exact ⟨g, whole, same [] rfl⟩
  · rcases h t.kind with ⟨g, whole, same⟩
    exact ⟨g, whole, fun rest => same (t :: rest) rfl⟩

/-- A reader that decides by the kind of the token behind the cursor. -/
theorem peekKind
    (h : ∀ kind, ∃ g : List Token → Reply α,
      Local n 2 g ∧ ∀ us : List Token, headKind us.tail = kind → f us = g us) :
    Local n 2 f := by
  refine peek ?_ fun t => ?_
  · rcases h .eof with ⟨g, whole, same⟩
    exact ⟨g, whole, fun us next => same us (congrArg headKind next)⟩
  · rcases h t.kind with ⟨g, whole, same⟩
    exact ⟨g, whole, fun us rest next => same us (congrArg headKind next)⟩

/-- Stops at the token behind the cursor. -/
theorem doneNext (a : α) : Local n 2 fun us => .done a us.tail :=
  ((done a).weaken.shift (n := n)).mono (Nat.le_succ n)

end Local

end Script
