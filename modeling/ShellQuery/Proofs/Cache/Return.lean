/-
  ShellQuery.Proofs.Cache.Return

  Every acquisition returns. It makes one round and one more for each time that the slot of its
  target is removed meanwhile (`tally_acquire_le`). Once there are no further calls, only so many
  steps are left (`Reachable.length_add_effort_le`), and where none is possible every call has
  returned (`Reachable.isOver_of_stuck`).
-/
import ShellQuery.Proofs.Cache.Effort
import ShellQuery.Proofs.Cache.Progress

namespace ShellQuery.Cache

variable {timeout : Nat} {st st' : State} {c : TaskId} {r : Request} {p : Phase}

/-- A call in progress goes on with some answer. -/
theorem Phase.exists_heeds (h : p.isOver = false) : ∃ answer, p.heeds answer = true := by
  cases p with
  | probing => exact ⟨.alive true, rfl⟩
  | resolving => exact ⟨.resolved none, rfl⟩
  | connecting => exact ⟨.connected, rfl⟩
  | discarding | closing | sweepClosing => exact ⟨.closed, rfl⟩
  | finished | «using» => cases h
  | _ => exact ⟨.proceed, rfl⟩

/-- Where no step is possible, whatever the store may answer, every call has returned. -/
theorem Reachable.isOver_of_stuck (hreach : Reachable st)
    (hstuck : ∀ d answer, st.step? timeout d answer = none)
    (htask : st.tasks[c]? = some ⟨r, p⟩) : p.isOver = true := by
  by_contra hover
  rw [Bool.not_eq_true] at hover
  -- a call in progress waits in the end for one that can go on
  obtain ⟨d, r', q, -, htask', hover', hfree⟩ := hreach.locks.exists_free htask hover
  obtain ⟨answer, hheeds⟩ := Phase.exists_heeds hover'
  obtain ⟨st', hstep⟩ :=
    State.exists_step htask' (hreach.passes htask') hfree hheeds timeout
  rw [hstuck d answer] at hstep
  cases hstep

/-- In every order of calls and steps: an acquisition makes one round, and no more than one for each
    time that the slot of its target is removed while it is in progress, which only calls that close
    the target or all do, and acquisitions of it that have failed. After any calls, no more steps
    than the effort that is left can be taken without a further one; and where no step is possible,
    whatever the store may answer, the acquisition has returned. -/
theorem Reachable.acquire_returns (hreach : Reachable st) {target : String} {use : Use}
    {acts : List Act}
    (hplay : st.play? timeout (.call (.acquire target use) :: acts) = some st') :
    st.tally timeout (State.beginsRound st.tasks.length) (.call (.acquire target use) :: acts) ≤
      1 + st.tally timeout (State.removes st.tasks.length target)
        (.call (.acquire target use) :: acts) ∧
    (∀ before act after, State.act? timeout before act = some after →
      State.removes st.tasks.length target before after = true →
        ∃ d answer task, act = .step d answer ∧ before.tasks[d]? = some task ∧
          task.removes target = true) ∧
    ∀ moves st'', st'.steps? timeout moves = some st'' →
      moves.length ≤ st'.effort ∧
      ((∀ d answer, st''.step? timeout d answer = none) →
        ∃ p, st''.tasks[st.tasks.length]? = some ⟨.acquire target use, p⟩ ∧ p.isOver = true) := by
  refine ⟨State.tally_acquire_le timeout st target use acts, fun _ _ _ => State.exists_removes,
    fun moves st'' hsteps => ⟨?_, fun hstuck => ?_⟩⟩
  · have hafter : Reachable st' := hreach.trans (.of_play hplay)
    exact Nat.le_trans (Nat.le_add_right _ _) (hafter.length_add_effort_le hsteps)
  · have htask : (st.submit (.acquire target use)).tasks[st.tasks.length]? =
        some ⟨.acquire target use, .finding⟩ := by
      rw [State.submit_tasks, List.getElem?_concat_length]
      rfl
    have hrest : (st.submit (.acquire target use)).play? timeout acts = some st' := hplay
    have hrun : Run (st.submit (.acquire target use)) st'' :=
      (Run.of_play hrest).trans (.of_steps hsteps)
    obtain ⟨p, htask'⟩ := hrun.exists_phase htask
    have hreach' : Reachable st'' := (Run.submit hreach _).trans hrun
    exact ⟨p, htask', hreach'.isOver_of_stuck hstuck htask'⟩

/-- An acquisition that has found the slot of its target when the target is closed, and then sees
    that the slot was dropped and begins again. -/
def Act.overtaken : List Act :=
  [.call (.acquire "a" .keep), .step 1 .proceed, .step 1 .proceed, .call (.close "a"),
    .step 2 .proceed, .step 2 .proceed] ++ List.replicate 5 (.step 1 .proceed)

theorem acquire_returns_overtaken : ∃ st', State.acquired.play? 100 Act.overtaken = some st' ∧
    State.acquired.tally 100 (State.beginsRound 1) Act.overtaken = 2 ∧
    State.acquired.tally 100 (State.removes 1 "a") Act.overtaken = 1 ∧
    State.acquired.tally 100 (State.beginsRound 1) Act.overtaken ≤
      1 + State.acquired.tally 100 (State.removes 1 "a") Act.overtaken ∧
    ∀ moves st'', st'.steps? 100 moves = some st'' →
      moves.length ≤ st'.effort ∧
      ((∀ d answer, st''.step? 100 d answer = none) →
        ∃ p, st''.tasks[1]? = some ⟨.acquire "a" .keep, p⟩ ∧ p.isOver = true) := by
  obtain ⟨st', hplay⟩ : ∃ st', State.acquired.play? 100 Act.overtaken = some st' := ⟨_, rfl⟩
  obtain ⟨hrounds, -, hends⟩ := reachable_acquired.acquire_returns hplay
  exact ⟨st', hplay, rfl, rfl, hrounds, hends⟩

end ShellQuery.Cache
