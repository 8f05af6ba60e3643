import Script.Proofs.Errors.Sight
import Script.Proofs.Errors.Stuck
import Script.Proofs.Grammar
import Script.Proofs.Token.Text

/-!
# The first error blames the first bad token

A text that is refused is good up to the token that its first error blames: what stands in front of
this token begins some accepted text. And there it goes wrong for good: whatever has the same tokens up
to this one has the same first error at the same place.

The first half is about phrases that have begun, the second about what the readers see.
-/

namespace Script

open Grammar

/-! ## The tokens in front of the first error decide it -/

theorem Draft.head?_errors_append {u post post' : List Token} {e : ParseError} {j : Nat}
    (h : (ofTokens (u ++ post)).errors.head? = some ⟨e, j + 1 + post.length⟩) :
    (ofTokens (u ++ post')).errors.head? = some ⟨e, j + 1 + post'.length⟩ := by
  induction size : u.length using Nat.strongRecOn generalizing u with
  | ind n ih =>
    have behind {ts : List Token} (h : (ofTokens ts).errors.head? = some ⟨e, j + 1 + post.length⟩) :
        post.length < ts.length := by
      rcases Draft.stuck h with ⟨run, rest, rfl, ⟨ahead, -⟩, -⟩
      have left : j + 1 + post.length = rest.length := ahead
      rw [List.length_append]
      omega
    cases u with
    | nil => exact absurd (behind h) (Nat.lt_irrefl _)
    | cons t u =>
      have alike := (Parse.local_statement (Parse.expression_local _)).alike (t :: u) post post'
        (Nat.le_refl _) (Nat.succ_pos _)
      simp only [List.cons_append] at h alike ⊢
      rw [head?_errors_cons] at h ⊢
      generalize read : Parse.statement (t :: (u ++ post)) = r at h alike
      generalize Parse.statement (t :: (u ++ post')) = r' at alike ⊢
      cases alike with
      | @done s v sight =>
        rw [Reply.first?_done, Reply.exists_eq_done_iff] at h ⊢
        refine .inr ?_
        have others := h.resolve_left (by simp)
        -- The statement ends in sight, and there are fewer tokens in sight behind it.
        rcases v with _ | ⟨first, v⟩
        · cases sight
        · have shorter := Parse.length_statement_lt read
          simp only [List.cons_append, List.tail_cons, List.length_cons, List.length_append]
            at shorter size others ⊢
          exact ih v.length (by omega) others rfl
      | stuck first first' =>
        refine .inl ?_
        -- A reply has one first error, so the error found is the one that both replies share.
        have found := h.resolve_right (by rintro ⟨s, us, rfl, -⟩; cases first)
        rw [first, Option.some.injEq, Diagnostic.mk.injEq] at found
        rcases found with ⟨rfl, same⟩
        rw [first', show _ = j from Nat.succ.inj (Nat.add_right_cancel same)]
      | beyond within =>
        rcases h with found | ⟨s, us, rfl, found⟩
        · have le := within.error _ found
          simp only at le
          omega
        · have le := within.cursor s us rfl
          have lt := behind found
          rw [List.length_tail] at lt
          omega

/-! ## First errors -/

/-- Do `us` agree with `ts` up to the token that `d` blames in `ts`? If the end of the input is to
blame, they have to end there too. -/
def Diagnostic.SharedBy (d : Diagnostic) (ts us : List Token) : Prop :=
  if d.ahead = 0 then us = ts else ts.take (ts.length - d.ahead + 1) <+: us

/-- What is known of the first error `d` of the tokens `ts`. -/
structure FirstBad (ts : List Token) (d : Diagnostic) : Prop where
  /-- The token to blame is the one that the error names. -/
  blames : Blames d (ts.drop (ts.length - d.ahead))
  /-- The tokens in front of it begin an accepted text. -/
  viable : ∃ text program, ts.take (ts.length - d.ahead) <+: tokens text.toList ∧
    Program.parse text = .ok program
  /-- Whatever shares the tokens up to the one to blame has the same first error, at this token. -/
  decided : ∀ us, d.SharedBy ts us → ∃ later,
    (Draft.ofTokens us).errors = ⟨d.error, us.length - (ts.length - d.ahead)⟩ :: later
  /-- So no text with these tokens is accepted. -/
  refused : ∀ text, d.SharedBy ts (tokens text.toList) → ∀ program, Program.parse text ≠ .ok program

theorem Draft.decided {ts us : List Token} {d : Diagnostic}
    (h : (ofTokens ts).errors.head? = some d) (shared : d.SharedBy ts us) :
    ∃ later, (ofTokens us).errors = ⟨d.error, us.length - (ts.length - d.ahead)⟩ :: later := by
  rw [← List.head?_eq_some_iff]
  rcases d with ⟨e, ahead⟩
  rcases Draft.stuck h with ⟨run, rest, rfl, ⟨left, -⟩, -⟩
  have left : ahead = rest.length := left
  subst left
  unfold Diagnostic.SharedBy at shared
  simp only [List.length_append, Nat.add_sub_cancel] at shared ⊢
  cases rest with
  | nil =>
    rw [List.length_nil, if_pos rfl] at shared
    subst shared
    simpa using h
  | cons t post =>
    rw [List.length_cons, if_neg (Nat.succ_ne_zero _), List.take_length_add_append] at shared
    rcases shared with ⟨post', rfl⟩
    have first : (ofTokens (run ++ [t] ++ post)).errors.head? = some ⟨e, 0 + 1 + post.length⟩ := by
      rw [Nat.zero_add, Nat.add_comm, List.append_assoc]
      exact h
    have same : (ofTokens (run ++ [t] ++ post')).errors.head? = some ⟨e, 0 + 1 + post'.length⟩ :=
      head?_errors_append first
    have place : (run ++ [t] ++ post').length - run.length = 0 + 1 + post'.length := by
      simp only [List.length_append, List.length_cons, List.length_nil]
      omega
    rw [← place] at same
    exact same

theorem firstBad_of_head? {source : String} {d : Diagnostic}
    (h : (Draft.ofText source).errors.head? = some d) : FirstBad (tokens source.toList) d := by
  have lexical := lexical_tokens source.toList
  unfold Draft.ofText at h
  generalize tokens source.toList = ts at h lexical
  have decided (us : List Token) (shared : d.SharedBy ts us) := Draft.decided h shared
  rcases Draft.stuck h with ⟨run, rest, rfl, blames, more, lexical', whole⟩
  have good : (run ++ rest).length - d.ahead = run.length := by
    rw [List.length_append, blames.1, Nat.add_sub_cancel]
  refine ⟨?_, ?_, decided, fun text shared program accepted => ?_⟩
  · rw [good, List.drop_left]
    exact blames
  · -- The completed tokens are those of a text, which is accepted as the program they derive.
    rcases whole [] with ⟨program, derives⟩
    rw [List.append_nil] at derives
    have possible : Lexical (run ++ more) :=
      Lexical.append (fun t ht => lexical t (List.mem_append_left rest ht)) lexical'
    rcases exists_tokens_eq possible with ⟨text, -, spelled⟩
    refine ⟨String.ofList text, program, ?_, ?_⟩
    · rw [good, List.take_left, String.toList_ofList, spelled]
      exact List.prefix_append run more
    · simp [Program.parse, Draft.ofText, spelled, Draft.ofTokens_of_derives derives]
  · rcases decided _ shared with ⟨later, errors⟩
    simp [Program.parse, Draft.ofText, errors] at accepted

/-- The first error of a refused text blames its first bad token. -/
theorem Program.parse_error_firstBad {source : String} {errors : List Diagnostic}
    (h : Program.parse source = .error errors) :
    ∃ d later, errors = d :: later ∧ FirstBad (tokens source.toList) d := by
  simp only [Program.parse] at h
  split at h
  case isTrue => cases h
  case isFalse refused =>
    cases h
    rcases found : (Draft.ofText source).errors with _ | ⟨d, later⟩
    · simp [found] at refused
    · exact ⟨d, later, rfl, firstBad_of_head? (by rw [found, List.head?_cons])⟩

/-- For example, a name is missing behind the comma, in front of the fifth token. -/
theorem Program.parse_error_firstBad_name :
    ∃ errors d later, Program.parse "fn(x, ) \x7b y" = .error errors ∧ errors = d :: later ∧
      d = ⟨.unexpected .ident (.symbol .closeParen), 3⟩ ∧
      FirstBad (tokens "fn(x, ) \x7b y".toList) d := by
  have found : (Draft.ofText "fn(x, ) \x7b y").errors.head? =
      some ⟨.unexpected .ident (.symbol .closeParen), 3⟩ := by
    decide +kernel
  have refused : (Draft.ofText "fn(x, ) \x7b y").errors.isEmpty = false := by
    decide +kernel
  have read : Program.parse "fn(x, ) \x7b y" = .error (Draft.ofText "fn(x, ) \x7b y").errors := by
    simp [Program.parse, refused]
  rcases Program.parse_error_firstBad read with ⟨d, later, errors, first⟩
  rw [errors] at found
  exact ⟨_, d, later, read, errors, Option.some.inj found, first⟩

end Script
