/-
  ShellQuery.Proofs.Cache.Once

  How often a task runs its operation. The store is asked to run it in the one step in which the
  task has acquired a handle; from then on the task only waits for the answer. So the runs of a
  task can be read off its phase (`Ran`), in every state that the tasks can come to in any order of
  their steps, whatever the store answers.
-/
import ShellQuery.Proofs.Cache.Locks

namespace ShellQuery.Cache

/-! ## The runs of a task -/

/-- What an event asks the store to run, and on which handle. -/
def Event.run? : Event → Option (HandleId × Operation)
  | .run h operation => some (h, operation)
  | _ => none

/-- What a task has asked the store to run, in order. -/
def State.runs (st : State) (c : TaskId) : List (HandleId × Operation) :=
  st.events.filterMap fun (d, e) => if d = c then e.run? else none

/-- Whether a task has acquired the handle it wants: it uses it, or has finished with something else
    than an unavailable target. -/
def Phase.hasAcquired : Phase → Bool
  | .using _ => true
  | .finished (.failed (.unavailable _ _)) => false
  | .finished _ => true
  | _ => false

/-- What a task has run by the time it is in a phase: its operation once, on the handle that it
    acquired, and nothing before that. A task that leaves its slot with a reply has acquired
    none. -/
def Phase.Ran (operation : Operation) (runs : List (HandleId × Operation)) : Phase → Prop
  | .using h => runs = [(h, operation)]
  | .finished (.failed (.unavailable _ _)) => runs = []
  | .finished _ => ∃ h, runs = [(h, operation)]
  | .leaving _ (some reply) =>
    runs = [] ∧ ∃ target reason, reply = .failed (.unavailable target reason)
  | _ => runs = []

theorem Phase.Ran.of_hasAcquired {operation : Operation} {runs : List (HandleId × Operation)}
    {p : Phase} (h : p.Ran operation runs) :
    (p.hasAcquired = true → ∃ hd, runs = [(hd, operation)]) ∧
      (p.hasAcquired = false → runs = []) := by
  match p with
  | .using hd => exact ⟨fun _ => ⟨hd, h⟩, nofun⟩
  | .finished reply =>
    cases reply with
    | failed e =>
      cases e with
      | unavailable => exact ⟨nofun, fun _ => h⟩
      | _ => exact ⟨fun _ => h, nofun⟩
    | _ => exact ⟨fun _ => h, nofun⟩
  | .leaving s none => exact ⟨nofun, fun _ => h⟩
  | .leaving s (some reply) => exact ⟨nofun, fun _ => h.1⟩
  | .finding | .entering _ | .checking _ | .probing _ _ | .discarding _ _ | .resolving _
  | .connecting _ _ | .storing _ _ | .evicting _ _ | .unmapping | .emptying _ | .closing _
  | .unmappingAll | .sweeping _ | .sweepClosing _ _ _ | .looking | .peeking _ | .listing
  | .counting _ _ => exact ⟨nofun, fun _ => h⟩

/-- What a task runs as it comes to a phase. -/
def Phase.begun (operation : Operation) : Phase → List (HandleId × Operation)
  | .using h => [(h, operation)]
  | _ => []

/-! ## What a step adds -/

theorem State.runs_of_events {st st' : State} {c : TaskId} (h : st'.events = st.events) :
    st'.runs c = st.runs c := by
  rw [State.runs, State.runs, h]

/-- The runs of a task are added to by its own events only. -/
theorem State.runs_append {st st' : State} {c : TaskId} {es : List Event}
    (h : st'.events = st.events ++ es.map (c, ·)) (d : TaskId) :
    st'.runs d = st.runs d ++ if c = d then es.filterMap Event.run? else [] := by
  rw [State.runs, h, List.filterMap_append, List.filterMap_map, ← State.runs]
  congr 1
  have hcomp : (fun (p : TaskId × Event) => if p.1 = d then p.2.run? else none) ∘ (c, ·) =
      fun e => if c = d then e.run? else none := rfl
  rw [hcomp]
  split
  · rfl
  · exact List.filterMap_eq_nil_iff.2 fun _ _ => rfl

section
variable {timeout : Nat} {st st' : State} {c d : TaskId} {r : Request} {p p' : Phase}
  {target : String} {plan : Plan} {deadline : Nat}

/-- A task runs its operation as it comes to use a handle, and at no other time. -/
theorem filterMap_run?_dealings :
    (dealings timeout (.acquire target (.run plan deadline)) p p').filterMap Event.run? =
      p'.begun plan.operation := by
  have hlearned : (p.learned p').filterMap Event.run? = [] := by
    unfold Phase.learned
    split <;> rfl
  rw [dealings, List.filterMap_append, hlearned, List.nil_append]
  cases p' <;> rfl

/-- An operation that has an outcome has been run, whatever the outcome is. -/
theorem Use.outcome?_ran {use : Use} {answer : Answer} {reply : Reply} {operation : Operation}
    {runs : List (HandleId × Operation)} (h : use.outcome? answer = some reply) {hd : HandleId}
    (hruns : runs = [(hd, operation)]) : Phase.Ran operation runs (.finished reply) := by
  unfold Use.outcome? at h
  split at h <;> cases h <;> exact ⟨hd, hruns⟩

/-- What a task has run fits its phase after a turn too. -/
theorem Turn.ran (h : Turn timeout st c (.acquire target (.run plan deadline)) p p' st')
    {runs : List (HandleId × Operation)} (hran : p.Ran plan.operation runs) :
    p'.Ran plan.operation (runs ++ p'.begun plan.operation) := by
  cases h with
  | alive | stored =>
    have hnone : runs = [] := hran
    rw [hnone]
    rfl
  | used hreply =>
    have hran' := Use.outcome?_ran hreply hran
    rwa [← List.append_nil runs] at hran'
  -- only an unavailable target is replied on the way out of a slot
  | left =>
    obtain ⟨hnone, name, reason, rfl⟩ := hran
    rw [hnone]
    rfl
  | _ =>
    have hnone : runs = [] := hran
    rw [hnone]
    rfl

/-- A look at the table runs nothing. -/
theorem Look.ran (h : Look st c (.acquire target (.run plan deadline)) p p' st')
    {runs : List (HandleId × Operation)} (hran : p.Ran plan.operation runs) :
    p'.Ran plan.operation runs := by
  cases h with
  | evicted => exact ⟨hran, _, _, rfl⟩
  | _ => exact hran

/-! ## The invariant -/

/-- Every task that is to run an operation has run it as its phase says. -/
structure Once (st : State) : Prop where
  /-- No task has had dealings with the store before it arrived. -/
  fresh : ∀ c : TaskId, st.tasks.length ≤ c → st.runs c = []
  ran : ∀ (c : TaskId) (target : String) (plan : Plan) (deadline : Nat) (p : Phase),
    st.tasks[c]? = some ⟨.acquire target (.run plan deadline), p⟩ →
      p.Ran plan.operation (st.runs c)

theorem Once.start : Once {} :=
  ⟨fun _ _ => rfl, fun c _ _ _ _ htask => absurd htask (by simp)⟩

theorem Once.submit (h : Once st) (r : Request) : Once (st.submit r) := by
  have hruns : ∀ c, (st.submit r).runs c = st.runs c := fun _ => rfl
  constructor
  · intro c hc
    rw [State.submit_tasks, List.length_append] at hc
    exact h.fresh c (Nat.le_trans (Nat.le_add_right ..) hc)
  · intro c target plan deadline p htask
    rw [hruns]
    rw [State.submit_tasks] at htask
    -- a task from before, or the one that has just arrived
    rcases Nat.lt_or_ge c st.tasks.length with hc | hc
    · rw [List.getElem?_append_left hc] at htask
      exact h.ran c target plan deadline p htask
    · rw [List.getElem?_append_right hc] at htask
      obtain ⟨rfl, rfl⟩ := Task.mk.inj (List.mem_singleton.1 (List.mem_of_getElem? htask))
      exact h.fresh c hc

/-- A task that goes on takes what it has run with it, and leaves that of the others. -/
theorem Once.enter (h : Once st) (htask : st.tasks[c]? = some ⟨r, p⟩)
    (htasks : st'.tasks = st.tasks.modify c fun t => { t with phase := p' })
    (hothers : ∀ d, d ≠ c → st'.runs d = st.runs d)
    (hself : ∀ target plan deadline, r = .acquire target (.run plan deadline) →
      p.Ran plan.operation (st.runs c) → p'.Ran plan.operation (st'.runs c)) : Once st' := by
  have hlt : c < st.tasks.length := (List.getElem?_eq_some_iff.1 htask).1
  constructor
  · intro d hd
    rw [htasks, List.length_modify] at hd
    have hne : d ≠ c := by
      rintro rfl
      exact absurd hlt (Nat.not_lt.2 hd)
    rw [hothers d hne]
    exact h.fresh d hd
  · intro d target plan deadline q hd
    rw [getElem?_of_enter htask htasks] at hd
    split at hd
    · rename_i hdc
      cases hd
      rw [hdc]
      exact hself target plan deadline rfl (h.ran c target plan deadline p htask)
    · rename_i hdc
      rw [hothers d hdc]
      exact h.ran d target plan deadline q hd

/-- A move of any task keeps what all tasks have run in step with their phases. -/
theorem Once.move (h : Once st) (htask : st.tasks[c]? = some ⟨r, p⟩)
    (hmove : Move timeout st c r p st') : Once st' := by
  cases hmove with
  | lockTable | lock | queue => exact ⟨h.fresh, h.ran⟩
  | @look p' st' hholder hlook =>
    refine h.enter htask hlook.tasks (fun d _ => State.runs_of_events hlook.events) ?_
    rintro target plan deadline rfl hran
    have hran' : p'.Ran plan.operation (st'.runs c) := by
      rw [State.runs_of_events hlook.events]
      exact hlook.ran hran
    exact hran'
  | turn hturn =>
    refine h.enter htask hturn.tasks (fun d hd => ?_) ?_
    · rw [State.runs_append hturn.events, if_neg (Ne.symm hd), List.append_nil]
    · rintro target plan deadline rfl hran
      rw [State.runs_append hturn.events, if_pos rfl, filterMap_run?_dealings]
      exact hturn.ran hran

theorem Reachable.once (h : Reachable st) : Once st := by
  induction h with
  | refl => exact .start
  | submit _ r ih => exact ih.submit r
  | step _ hstep ih =>
    obtain ⟨r, p, htask, hmove⟩ := move_of_step hstep
    exact ih.move htask hmove

end

end ShellQuery.Cache
