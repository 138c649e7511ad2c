/-
  ShellQuery.Proofs.Record

  How a store is called. A store that keeps a record of its calls (`Store.recorded`) does with it
  what it does without (`plain_executeAll`), so the record tells how any store is called. Each step
  of a task calls the store for just the dealings that the cache takes note of, and each of them is
  one call (`deals_step?`).
-/
import ShellQuery.Proofs.Polling

namespace ShellQuery

open Cache

/-! ## Calls -/

/-- What a store is called for. -/
inductive Store.Call where
  | connect (descriptor : Target) (timeout : Nat)
  | opened (h : HandleId)
  | probe (h : HandleId)
  | run (h : HandleId) (operation : Operation)
  | list (h : HandleId)
  | close (h : HandleId)

/-- The call that a dealing with the store is. -/
def Cache.Event.call : Event → Store.Call
  | .connect _ descriptor timeout => .connect descriptor timeout
  | .opened h => .opened h
  | .probed h _ => .probe h
  | .run h operation => .run h operation
  | .listed h => .list h
  | .closed h => .close h

/-- The state of a store, and all calls of it in order, each with the task that made it. -/
structure Recorded (σ : Type) where
  state : σ
  calls : List (TaskId × Store.Call) := []

/-- The record after a call that leaves the store in a state. -/
def Recorded.note {σ : Type} (r : Recorded σ) (c : TaskId) (call : Store.Call) (state : σ) :
    Recorded σ :=
  ⟨state, r.calls ++ [(c, call)]⟩

/-- A store that keeps a record of its calls. -/
def Store.recorded {σ : Type} (store : Store σ) : Store (Recorded σ) where
  connect r c target timeout :=
    let (s, answer) := store.connect r.state c target timeout
    (r.note c (.connect target timeout) s, answer)
  opened r c h := r.note c (.opened h) (store.opened r.state c h)
  probe r c h :=
    let (s, alive) := store.probe r.state c h
    (r.note c (.probe h) s, alive)
  run r c h operation :=
    let (s, answer) := store.run r.state c h operation
    (r.note c (.run h operation) s, answer)
  list r c h :=
    let (s, answer) := store.list r.state c h
    (r.note c (.list h) s, answer)
  close r c h := r.note c (.close h) (store.close r.state c h)

namespace Executor

variable {σ : Type} (store : Store σ)

/-! ## With and without a record -/

/-- An executor whose store has another state. -/
def withStore {τ : Type} (x : Executor σ) (s : τ) : Executor τ :=
  { registry := x.registry, config := x.config, cache := x.cache, store := s, clock := x.clock
    timers := x.timers, finishTimes := x.finishTimes }

/-- An executor that begins a record. -/
def recorded (x : Executor σ) : Executor (Recorded σ) :=
  x.withStore { state := x.store }

/-- An executor without its record. -/
def plain (x : Executor (Recorded σ)) : Executor σ :=
  x.withStore x.store.state

@[simp] theorem plain_recorded (x : Executor σ) : x.recorded.plain = x := rfl

variable (x : Executor (Recorded σ))

/-- The store answers alike with a record and without. -/
theorem plain_answer? (c : TaskId) (task : Task) :
    (x.answer? store.recorded c task).map (fun (y, answer) => (y.plain, answer)) =
      x.plain.answer? store c task := by
  unfold Executor.answer?
  split
  case h_6 | h_7 =>
    rw [Option.map_map]
    rfl
  all_goals rfl

theorem plain_attend (c : TaskId) (task : Task) :
    (x.attend store.recorded c task).plain = x.plain.attend store c task := by
  unfold Executor.attend
  split <;> rfl

/-- A step with a record is, without it, the step of the executor without one. -/
theorem plain_step? (c : TaskId) :
    (x.step? store.recorded c).map plain = x.plain.step? store c := by
  have hcache : x.plain.cache = x.cache := rfl
  have hconfig : x.plain.config = x.config := rfl
  simp only [Executor.step?, hcache, hconfig, Option.bind_eq_bind, ← plain_answer?]
  cases x.cache.tasks[c]? with
  | none => rfl
  | some task =>
    simp only [Option.bind_some]
    cases x.answer? store.recorded c task with
    | none => rfl
    | some asked =>
      obtain ⟨y, answer⟩ := asked
      simp only [Option.map_some, Option.bind_some]
      cases x.cache.step? x.config.connectTimeout c answer with
      | none => rfl
      | some cache =>
        simp only [Option.bind_some]
        cases cache.tasks[c]? with
        | none => rfl
        | some task' => exact congrArg some (plain_attend store { y with cache } c task')

/-- A task that is polled comes as far with a record as without. -/
theorem plain_poll (c : TaskId) (fuel : Nat) :
    (poll store.recorded c fuel x).map plain id = poll store c fuel x.plain := by
  induction fuel generalizing x with
  | zero => rfl
  | succ fuel ih =>
    unfold poll
    rw [← plain_step?]
    cases x.step? store.recorded c with
    | none => rfl
    | some y => exact congrArg (fun z => (z.1, true)) (ih y)

theorem plain_round (tasks : List TaskId) :
    (round store.recorded tasks x).map plain id = round store tasks x.plain := by
  unfold round
  -- whether any task has moved is carried along
  generalize false = moved
  induction tasks generalizing x moved with
  | nil => rfl
  | cons c tasks ih =>
    simp only [List.foldl_cons]
    have hpoll : poll store c x.plain.pollFuel x.plain =
        (poll store.recorded c x.pollFuel x).map plain id := (plain_poll store x c _).symm
    rw [ih, hpoll]
    rfl

theorem plain_runTasks (tasks : List TaskId) (fuel : Nat) :
    (runTasks store.recorded tasks fuel x).plain = runTasks store tasks fuel x.plain := by
  induction fuel generalizing x with
  | zero => rfl
  | succ fuel ih =>
    unfold runTasks
    rw [← plain_round]
    obtain ⟨y, moved⟩ := round store.recorded tasks x
    cases moved with
    | true => exact ih y
    | false =>
      simp only [Prod.map_apply, id_eq]
      have hmoment : y.plain.nextMoment? = y.nextMoment? := rfl
      rw [hmoment]
      cases y.nextMoment? with
      | none => rfl
      | some moment => exact ih _

/-- Calls that are performed together have the same replies with a record and without. -/
theorem plain_performAll (requests : List Request) :
    (x.performAll store.recorded requests).map plain id = x.plain.performAll store requests := by
  have hsubmitted : { x.plain with cache := requests.foldl State.submit x.plain.cache } =
      ({ x with cache := requests.foldl State.submit x.cache } : Executor _).plain := rfl
  unfold performAll
  dsimp only
  rw [hsubmitted, ← plain_runTasks]
  rfl

theorem plain_perform (r : Request) :
    (x.perform store.recorded r).map plain id = x.plain.perform store r := by
  unfold perform
  rw [← plain_performAll]
  obtain ⟨y, replies⟩ := x.performAll store.recorded [r]
  rcases replies with _ | ⟨reply, _ | _⟩ <;> rfl

/-- A query comes to the same with a record as without. -/
theorem plain_execute (now : Int64) (e : Execution) :
    (x.execute store.recorded now e).map plain id = x.plain.execute store now e := by
  have hconfig : x.plain.config = x.config := rfl
  unfold execute
  rw [hconfig]
  cases request x.config now e with
  | error err => rfl
  | ok r =>
    dsimp only
    rw [← plain_perform]
    rfl

theorem plain_executeAll (now : Int64) (es : List Execution) :
    (x.executeAll store.recorded now es).map plain id = x.plain.executeAll store now es := by
  have hconfig : x.plain.config = x.config := rfl
  unfold executeAll
  dsimp only
  rw [hconfig, ← plain_performAll]
  rfl

/-! ## The record of a step -/

/-- As a task asks for what it waits for, a call is recorded if it probes a handle. -/
theorem calls_answer? {y : Executor (Recorded σ)} {c : TaskId} {task : Task} {answer : Answer}
    (h : x.answer? store.recorded c task = some (y, answer)) (p : Phase) :
    y.store.calls =
      x.store.calls ++ (task.phase.learned p).map fun e => (c, e.call) := by
  obtain ⟨r, q⟩ := task
  cases q with
  | probing =>
    cases h
    cases p <;> rfl
  | connecting | «using» =>
    obtain ⟨_, -, heq⟩ := Option.map_eq_some_iff.1 h
    cases heq
    exact (List.append_nil _).symm
  | resolving =>
    cases r <;> cases h <;> exact (List.append_nil _).symm
  | finished => cases h
  | _ =>
    cases h
    exact (List.append_nil _).symm

/-- As a task comes to a phase, the call is recorded that the phase begins with. -/
theorem calls_attend (c : TaskId) (r : Request) (p : Phase) :
    (x.attend store.recorded c ⟨r, p⟩).store.calls =
      x.store.calls ++ (r.begun x.config.connectTimeout p).map fun e => (c, e.call) := by
  cases r with
  | acquire target use =>
    cases p with
    | connecting | storing | discarding => rfl
    | «using» =>
      cases use with
      | keep => exact (List.append_nil _).symm
      | run | list => rfl
    | _ => exact (List.append_nil _).symm
  | close | closeAll =>
    cases p with
    | closing | sweepClosing => first | rfl | exact (List.append_nil _).symm
    | _ => exact (List.append_nil _).symm
  | _ => cases p <;> exact (List.append_nil _).symm

/-- What some tasks do between two states of an executor: the cache takes note of their dealings,
    and the store is called once for each of them. -/
def Deals (tasks : TaskId → Prop) (x y : Executor (Recorded σ)) : Prop :=
  ∃ dealings : List (TaskId × Event), (∀ d ∈ dealings, tasks d.1) ∧
    y.cache.events = x.cache.events ++ dealings ∧
    y.store.calls = x.store.calls ++ dealings.map fun d => (d.1, d.2.call)

variable {store x} {y z : Executor (Recorded σ)} {c : TaskId} {tasks : TaskId → Prop}

theorem Deals.refl (x : Executor (Recorded σ)) : Deals tasks x x :=
  ⟨[], nofun, (List.append_nil _).symm, (List.append_nil _).symm⟩

/-- The dealings of two courses, one after the other, add up. -/
theorem Deals.trans (h : Deals tasks x y) (h' : Deals tasks y z) : Deals tasks x z := by
  obtain ⟨first, hmine, hevents, hcalls⟩ := h
  obtain ⟨last, hmine', hevents', hcalls'⟩ := h'
  refine ⟨first ++ last, fun d hd => ?_, ?_, ?_⟩
  · exact (List.mem_append.1 hd).elim (hmine d) (hmine' d)
  · rw [hevents', hevents, List.append_assoc]
  · rw [hcalls', hcalls, List.append_assoc, List.map_append]

/-- A step of a task calls the store once for each dealing of the task, and for nothing else. -/
theorem deals_step? (hstep : x.step? store.recorded c = some y) (hc : tasks c) :
    Deals tasks x y := by
  obtain ⟨task, asked, answer, cache, task', htask, hasked, hcache, htask', rfl⟩ :=
    (step?_eq_some_iff _).1 hstep
  obtain ⟨r, p, p', hbefore, hafter, hevents⟩ := State.exists_dealings_of_step hcache
  cases htask.symm.trans hbefore
  cases htask'.symm.trans hafter
  have hidles := Idles.of_answer? hasked
  have hattend := Idles.attend store.recorded { asked with cache } c ⟨r, p'⟩
  refine ⟨(dealings x.config.connectTimeout r p p').map (c, ·), fun d hd => ?_, ?_, ?_⟩
  · obtain ⟨e, -, rfl⟩ := List.mem_map.1 hd
    exact hc
  · rw [hattend.cache]
    exact hevents
  · have hconfig : asked.config = x.config := hidles.config
    rw [calls_attend, calls_answer? store x hasked p', hconfig, List.append_assoc, ← List.map_append,
      ← dealings, List.map_map]
    rfl

/-- On every course the calls of the store and the events of the cache are added alike. -/
theorem Course.deals {tasks : List TaskId} (h : Course store.recorded tasks x y) :
    Deals (· ∈ tasks) x y := by
  induction h with
  | refl => exact .refl x
  | step _ hc hstep ih => exact ih.trans (deals_step? hstep hc)
  | wait _ clock ih => exact ih

/-! ## Any calls in any order -/

/-- Whether an executor comes from another one by any calls, in any order of their steps. All but
    the cache and the record may change in any way in between: the registry, the clock, and what
    the store will answer. -/
inductive Interleaving (store : Store σ) (x : Executor (Recorded σ)) :
    Executor (Recorded σ) → Prop where
  | refl : Interleaving store x x
  | submit {y : Executor (Recorded σ)} (h : Interleaving store x y) (r : Request) :
    Interleaving store x { y with cache := y.cache.submit r }
  | step {y z : Executor (Recorded σ)} {c : TaskId} (h : Interleaving store x y)
    (hstep : y.step? store.recorded c = some z) : Interleaving store x z
  | meanwhile {y z : Executor (Recorded σ)} (h : Interleaving store x y)
    (hcache : z.cache = y.cache) (hcalls : z.store.calls = y.store.calls) :
    Interleaving store x z

namespace Interleaving

theorem course {tasks : List TaskId} (h : Interleaving store x y)
    (hcourse : Course store.recorded tasks y z) : Interleaving store x z := by
  induction hcourse with
  | refl => exact h
  | step _ _ hstep ih => exact ih.step hstep
  | wait _ clock ih => exact ih.meanwhile rfl rfl

/-- Calls that come together are one way to go on. -/
theorem performAll (h : Interleaving store x y) (requests : List Request) :
    Interleaving store x (y.performAll store.recorded requests).1 := by
  refine course ?_ (course_performAll store.recorded y requests)
  induction requests generalizing x y with
  | nil => exact h
  | cons r requests ih => exact ih (h.submit r)

theorem run (h : Interleaving store x y) : Run x.cache y.cache := by
  induction h with
  | refl => exact .refl _
  | submit _ r ih => exact ih.submit r
  | step _ hstep ih => exact ih.trans (works_step? _ hstep).moves.run
  | meanwhile _ hcache _ ih => exact hcache ▸ ih

/-- Whatever happens, the store is called for the dealings that the cache takes note of. -/
theorem deals (h : Interleaving store x y) : Deals (fun _ => True) x y := by
  induction h with
  | refl => exact .refl x
  | submit _ r ih => exact ih
  | step _ hstep ih => exact ih.trans (deals_step? hstep trivial)
  | meanwhile _ hcache hcalls ih =>
    obtain ⟨dealings, hmine, hevents, hrecord⟩ := ih
    exact ⟨dealings, hmine, hcache ▸ hevents, hcalls ▸ hrecord⟩

end Interleaving

end Executor

end ShellQuery
