/-
  ShellQuery.Proofs.Cache.Stride

  Steps and strides. In a run of steps other tasks may go on between the taking of the table's lock
  and the look it is taken for. They neither look at the table nor touch its lock, so the taking of
  the lock can be put off until the look: every run of steps is one of strides, and the other way
  round (`State.exists_strides_of_play`, `State.exists_play_of_strides`). Between strides the lock of
  the table is free, and a task can take a stride wherever it can take a step
  (`State.isSome_stride?`).
-/
import ShellQuery.Proofs.Cache.Attribution
import ShellQuery.Proofs.Cache.Progress

namespace ShellQuery.Cache

variable {st st' : State} {c : TaskId} {r : Request} {p : Phase} {timeout : Nat} {answer : Answer}

namespace State

section
variable {holder : Option TaskId}

end

/-! ## Strides -/

/-- The state after some acts, each step being a stride, if all are possible. -/
def strides? (timeout : Nat) (st : State) : List Act → Option State
  | [] => some st
  | .call r :: acts => (st.submit r).strides? timeout acts
  | .step c answer :: acts =>
    (st.stride? timeout c answer).bind fun st' => st'.strides? timeout acts

/-- A run of strides is one of steps, each stride being one or two of them. -/
theorem exists_play_of_strides {strides : List Act}
    (hstrides : st.strides? timeout strides = some st') :
    ∃ acts, st.play? timeout acts = some st' := by
  induction strides generalizing st with
  | nil => exact ⟨[], hstrides⟩
  | cons act strides ih =>
    cases act with
    | call r =>
      obtain ⟨acts, hplay⟩ := ih hstrides
      exact ⟨.call r :: acts, hplay⟩
    | step c answer =>
      obtain ⟨st₁, hstride, hrest⟩ := Option.bind_eq_some_iff.1 hstrides
      obtain ⟨acts, hplay⟩ := ih hrest
      obtain ⟨st₂, hstep, hlook⟩ := Option.bind_eq_some_iff.1 hstride
      split at hlook
      · refine ⟨.step c answer :: .step c answer :: acts, ?_⟩
        simp only [play?, act?, hstep, hlook, hplay, Option.bind_some]
      · cases hlook
        refine ⟨.step c answer :: acts, ?_⟩
        simp only [play?, act?, hstep, hplay, Option.bind_some]

end State

/-! ## Strides that have begun -/

/-- A call that wants the table takes the lock where it is free, or has it and looks. -/
theorem Move.cases_of_wantsTable (h : Move timeout st c r p st') (hwants : p.wantsTable = true) :
    st.table.holder = none ∨ st.table.holder = some c ∧ st'.table.holder = none := by
  have hslot := Phase.wants?_eq_none_of_wantsTable hwants
  cases h with
  | lockTable _ hfree => exact .inl hfree
  | lock hwants' => simp [hslot] at hwants'
  | queue hwants' => simp [hslot] at hwants'
  | look hholder => exact .inr ⟨hholder, rfl⟩
  | turn hturn => simp [hturn.wantsTable] at hwants

end ShellQuery.Cache
