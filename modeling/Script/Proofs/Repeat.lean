import Script.Proofs.Eval.Frame
import Script.Proofs.Eval.Mirror

/-!
# Repeating a call

A call leaves the scopes that were there alone, so the same call made again finds them as the first
one did. It differs only in the scopes and objects it makes: they come behind those of the first call.
Main statement: `Value.call_repeats`.
-/

namespace Script

/-! ## Renaming what is new -/

/-- Takes what is new behind the state `s` for what is new behind the state `t`. -/
def Renaming.past (s t : State) : Renaming :=
  ⟨shift s.scopes.size t.scopes.size, shift s.fresh t.fresh⟩

theorem Value.rename_past {s t : State} {v : Value} (old : v.In s) : v.rename (.past s t) = v :=
  rename_eq_self (fun _ => shift_of_lt) (fun _ => shift_of_lt) v old

/-! ## Two runs -/

section

variable {s t : State}

theorem Renaming.past_fits (grows : s.Grows t) : (past s t).Fits .everything none s where
  object := (shift_strictMono grows.fresh).injective
  order _ _ _ _ := (shift_strictMono grows.scopes).lt_iff_lt
  ground := nofun
  new _ _ := trivial
  nextScope _ new := shift_succ new
  nextObject _ new := shift_succ new

/-- A state in which only new scopes and objects were added looks as before to the old ones. -/
theorem Untouched.mirrors (untouched : Untouched s t) (closed : s.Closed) :
    s.Mirrors .everything (.past s t) none t where
  scopes := by
    intro i _
    rcases there : s.scopes[i]? with _ | here
    · have new : s.scopes.size ≤ i := Array.getElem?_eq_none_iff.1 there
      have beyond : t.scopes.size ≤ (Renaming.past s t).scope i := by
        rw [show (Renaming.past s t).scope i = _ from shift_of_le new]
        exact Nat.le_add_right _ _
      rw [Array.getElem?_eq_none_iff.2 beyond]
      exact .none
    · have old : i < s.scopes.size := (Array.getElem?_eq_some_iff.1 there).1
      rw [show (Renaming.past s t).scope i = i from shift_of_lt old, untouched i here there]
      refine .some ⟨fun x _ => ?_, fun _ v _ _ => Realm.everything_value v, ?_, fun _ _ => trivial⟩
      · rcases bound : here.bindings.get? x with _ | v
        · rfl
        · exact congrArg some (Value.rename_past (closed.bound i here there x v bound)).symm
      · rcases link : here.outer with _ | outer
        · rfl
        · exact congrArg some (shift_of_lt (closed.links i here there outer link)).symm
  ground := nofun

theorem Tracks.again (untouched : Untouched s t) (closed : s.Closed) :
    Tracks .everything (.past s t) none s t s t :=
  .start (untouched.mirrors closed) (by simp [Renaming.past, shift]) (by simp [Renaming.past, shift])

end

/-! ## Calls -/

/-- A call in a closed state that ends does so again when it is made again in the state it has left,
and prints the same text. It fails with the same fault, or gives the same value but for the identities
of what the call has made; so the values are of the same type and have the same text. -/
theorem Value.call_repeats {n : Nat} {callee : Value} {args : List Value} {s t : State}
    {r : Except Fault Value} (closed : s.Closed) (callee_in : callee.In s)
    (args_in : ∀ v ∈ args, v.In s) (ends : callee.call n args s = some (r, t)) :
    ∃ r' t' out, callee.call n args t = some (r', t') ∧
      t.printed = s.printed ++ out ∧ t'.printed = t.printed ++ out ∧
      (∀ e, r = .error e → r' = .error e) ∧
      ∀ v, r = .ok v → ∃ v', r' = .ok v' ∧ v' = v.rename (.past s t) ∧
        v'.type = v.type ∧ v'.text = v.text := by
  have grows : s.Grows t := (Value.call_closed closed callee_in args_in r t ends).2.1
  have untouched : Untouched s t :=
    Value.call_keeps Frame.effects n callee args s r t ends
  have mirror : Realm.everything.Mirror (.past s t) (Tracks _ _ none s t) :=
    Tracks.mirror (Renaming.past_fits grows)
  have given : ∀ v ∈ args, Realm.everything.value v := fun v _ => Realm.everything_value v
  have lockstep := Value.call_lockstep mirror n (Realm.everything_value callee) given
  -- The callee and the arguments were there before the first call, so they keep their identity.
  have same_args : args.map (Value.rename (.past s t)) = args :=
    (List.map_congr_left fun v here => Value.rename_past (args_in v here)).trans (List.map_id args)
  rw [Value.rename_past callee_in, same_args] at lockstep
  rcases lockstep s t (.again untouched closed) with
    ⟨cut, -⟩ | ⟨_, _, t', first, again, tracks, -⟩
  · rw [ends] at cut
    cases cut
  · rw [ends] at first
    cases first
    rcases tracks.printed with ⟨out, printed, printed'⟩
    refine ⟨_, t', out, again, printed, printed', ?_, ?_⟩
    · rintro e rfl
      rfl
    · rintro v rfl
      exact ⟨_, rfl, rfl, Value.type_rename _ v, Value.text_rename _ v⟩

/-- A function that prints and gives a new array does the same again; the arrays are two. -/
theorem Value.call_repeats_array :
    let s := State.initial.useFresh
    let body : Block := [.expr (.call (.name "f") [.int 1]), .leave (.array [.int 2])]
    let callee : Value := .function 0 ⟨["f"], body, State.root⟩
    ∃ t t', callee.call 2 [.builtin .puts] s = some (.ok (.array 1 [.int 2]), t) ∧
      callee.call 2 [.builtin .puts] t = some (.ok (.array 2 [.int 2]), t') ∧
      t.printed = "1\n" ∧ t'.printed = "1\n1\n" := by
  intro s body callee
  have closed : s.Closed := .of_scopes .initial rfl (.useFresh _)
  have callee_in : callee.In s := ⟨by decide, by decide⟩
  have args_in : ∀ v ∈ [Value.builtin .puts], v.In s := List.forall_mem_singleton.2 trivial
  let t : State := ⟨#[⟨[], none⟩, ⟨[("f", .builtin .puts)], some State.root⟩], 2, "1\n"⟩
  have ends : callee.call 2 [.builtin .puts] s = some (.ok (.array 1 [.int 2]), t) := by
    with_unfolding_all rfl
  rcases Value.call_repeats closed callee_in args_in ends with
    ⟨_, t', out, again, printed, printed', -, gives⟩
  rcases gives _ rfl with ⟨_, rfl, rfl, -, -⟩
  have text : "1\n" = out := printed.trans String.empty_append
  exact ⟨t, t', ends, again, rfl, by rw [printed', ← text]; rfl⟩

end Script
