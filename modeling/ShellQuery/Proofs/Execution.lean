/-
  ShellQuery.Proofs.Execution

  What executing a query does, against what its inspection shows. An executor submits requests, and
  the rest is steps of their tasks (`course_performAll`), in which the store is called for the
  dealings that the cache takes note of (`Interleaving.deals`). So what holds of every run of the
  cache holds of the calls: a query hands the store the operation of its plan once, and the plan is
  the one inspected.
-/
import Mathlib
import ShellQuery.Proofs.Cache.Once
import ShellQuery.Proofs.Reader
import ShellQuery.Proofs.Record
import ShellQuery.Session

namespace ShellQuery

open Cache

/-! ## Tasks keep their requests -/

namespace Cache

theorem State.getElem?_of_submits (st : State) {requests : List Request} {i : Nat} {r : Request}
    (h : requests[i]? = some r) :
    (requests.foldl State.submit st).tasks[st.tasks.length + i]? = some ⟨r, r.begin⟩ := by
  have htasks : (requests.foldl State.submit st).tasks =
      st.tasks ++ requests.map fun r => ⟨r, r.begin⟩ := by
    clear h
    induction requests generalizing st with
    | nil => simp
    | cons first requests ih => simp [ih]
  rw [htasks, List.getElem?_append_right (Nat.le_add_right ..), Nat.add_sub_cancel_left,
    List.getElem?_map, h]
  rfl

/-- While a task waits for what its operation returns, a step of it changes nothing but the task,
    which finishes with what comes back. -/
theorem State.finish_of_using {st st' : State} {c : TaskId} {target : String} {use : Use}
    {h : HandleId} {timeout : Nat} {answer : Answer}
    (htask : st.tasks[c]? = some ⟨.acquire target use, .using h⟩)
    (hstep : st.step? timeout c answer = some st') :
    ∃ reply, use.outcome? answer = some reply ∧ st' = st.finish c reply := by
  have hstep' : ((use.outcome? answer).map (st.finish c)) = some st' := by
    rw [← State.stepAcquire_using st c timeout target use h, ← hstep, State.step?, htask]
    rfl
  obtain ⟨reply, hreply, rfl⟩ := Option.map_eq_some_iff.1 hstep'
  exact ⟨reply, hreply, rfl⟩

end Cache

/-! ## What is handed over -/

namespace Executor

variable {σ : Type} (store : Store σ) {x : Executor σ}

/-- What a task has handed the store to run, in order, each with the handle. -/
def handed (y : Executor (Recorded σ)) (c : TaskId) : List (HandleId × Operation) :=
  y.store.calls.filterMap fun (d, call) =>
    match call with
    | .run h operation => if d = c then some (h, operation) else none
    | _ => none

variable {store} in
/-- A task that comes after a record was begun has handed over what the cache takes note of. -/
theorem Interleaving.handed_eq {y : Executor (Recorded σ)} (h : Interleaving store x.recorded y)
    (hreach : Reachable x.cache) {c : TaskId} (hc : x.cache.tasks.length ≤ c) :
    y.handed c = y.cache.runs c := by
  obtain ⟨dealings, -, hevents, hcalls⟩ := h.deals
  have hfresh : x.cache.runs c = [] := hreach.once.fresh c hc
  have hruns : y.cache.runs c =
      x.cache.runs c ++ dealings.filterMap fun entry =>
        if entry.1 = c then entry.2.run? else none := by
    rw [State.runs, hevents, List.filterMap_append]
    rfl
  rw [handed, hcalls, hruns, hfresh, List.nil_append]
  refine (List.filterMap_map ..).trans (List.filterMap_congr fun entry _ => ?_)
  obtain ⟨d, e⟩ := entry
  cases e <;> simp [Function.comp, Event.call, Event.run?]

/-- What a task that is to run a plan has done by the time it is in a phase, in an executor with a
    record. It has handed the store the operation of the plan once if it has acquired a handle, and
    else not at all. Whatever comes of the operation, be it a value, an error or that the time is
    over, the task calls the store no more, and finishes without a change to the cached handles. -/
structure Hands (store : Store σ) (y : Executor (Recorded σ)) (c : TaskId) (plan : Plan)
    (deadline : Nat) (phase : Phase) : Prop where
  once : phase.hasAcquired = true → ∃ h, y.handed c = [(h, plan.operation)]
  never : phase.hasAcquired = false → y.handed c = []
  answered : ∀ {h : HandleId} {z : Executor (Recorded σ)}, phase = .using h →
    y.step? store.recorded c = some z →
      z.store.calls = y.store.calls ∧ z.cache.table = y.cache.table ∧
      z.cache.opened = y.cache.opened ∧ z.cache.events = y.cache.events ∧
      ∃ answer reply, (Use.run plan deadline).outcome? answer = some reply ∧
        z.cache = y.cache.finish c reply

variable {store} in
theorem Interleaving.hands {y : Executor (Recorded σ)} (h : Interleaving store x.recorded y)
    (hreach : Reachable x.cache) {c : TaskId} (hc : x.cache.tasks.length ≤ c) {target : String}
    {plan : Plan} {deadline : Nat} {phase : Phase}
    (htask : y.cache.tasks[c]? = some ⟨.acquire target (.run plan deadline), phase⟩) :
    Hands store y c plan deadline phase := by
  have hreach' : Reachable y.cache := Run.trans hreach h.run
  obtain ⟨once, never⟩ := (hreach'.once.ran c target plan deadline phase htask).of_hasAcquired
  rw [← h.handed_eq hreach hc] at once never
  refine ⟨once, never, ?_⟩
  rintro hd z rfl hstep
  have hdeals : Deals (fun _ => True) y z := deals_step? hstep trivial
  obtain ⟨dealings, -, hevents, hcalls⟩ := hdeals
  obtain ⟨task, asked, answer, cache, task', htask₁, hasked, hcache, htask', rfl⟩ :=
    (step?_eq_some_iff _).1 hstep
  obtain ⟨reply, hreply, rfl⟩ := State.finish_of_using htask hcache
  have hattend := Idles.attend store.recorded { asked with cache := y.cache.finish c reply } c task'
  rw [hattend.cache] at hevents ⊢
  -- the cache takes note of nothing, so there was no call
  obtain rfl : dealings = [] := List.append_right_eq_self.1 hevents.symm
  exact ⟨hcalls.trans (List.append_nil _), rfl, rfl, rfl, answer, reply, hreply, rfl⟩

/-! ## What requests come to -/

theorem run_performAll (x : Executor σ) (requests : List Request) :
    Run (requests.foldl State.submit x.cache) (x.performAll store requests).1.cache :=
  (course_performAll store x requests).works.moves.run

/-- What tasks came to, and when. -/
theorem performAll_snd (x : Executor σ) (requests : List Request) :
    (x.performAll store requests).2 = (List.range requests.length).map fun i =>
      ((x.performAll store requests).1.cache.tasks[x.cache.tasks.length + i]?.bind Task.reply?,
        ((x.performAll store requests).1.finishTimes.lookup (x.cache.tasks.length + i)).getD
          (x.performAll store requests).1.clock) := by
  unfold performAll
  exact List.map_map

/-- Each request that is performed is a task, and comes to what the task replies. -/
theorem exists_task_of_performAll (x : Executor σ) {requests : List Request} {i : Nat}
    {r : Request} (hr : requests[i]? = some r) :
    ∃ phase finished,
      (x.performAll store requests).1.cache.tasks[x.cache.tasks.length + i]? = some ⟨r, phase⟩ ∧
      (x.performAll store requests).2[i]? = some (Task.reply? ⟨r, phase⟩, finished) := by
  have hlt : i < requests.length := (List.getElem?_eq_some_iff.1 hr).1
  obtain ⟨phase, hphase⟩ := (run_performAll store x requests).exists_phase
    (State.getElem?_of_submits x.cache hr)
  refine ⟨phase, ((x.performAll store requests).1.finishTimes.lookup
    (x.cache.tasks.length + i)).getD (x.performAll store requests).1.clock, hphase, ?_⟩
  rw [performAll_snd, List.getElem?_map, List.getElem?_range hlt, Option.map_some, hphase]
  rfl

/-! ## Queries -/

/-- Whether the plan of a query is the same at all times: no date of it is read off the clock. -/
def ReadsNoClock (limit : Int64) (query : List Char) : Prop :=
  ∀ now now', Plan.ofQuery now limit query = Plan.ofQuery now' limit query

/-- A text that is no query takes its place among the results, and does nothing else. -/
theorem fill_error (started : Nat) (e : QueryError) (before after : List (Except QueryError Request))
    (replies : List (Option Reply × Nat)) :
    fill started (before ++ .error e :: after) replies =
      (fill started (before ++ after) replies).insertIdx before.length (.ofError (.query e)) := by
  induction before generalizing replies with
  | nil => rfl
  | cons first before ih =>
    cases first with
    | error _ => exact congrArg _ (ih replies)
    -- a request takes the next reply, with or without a failure after it
    | ok _ =>
      cases replies with
      | nil => exact congrArg _ (ih [])
      | cons reply replies => exact congrArg _ (ih replies)

theorem executeAll_error {now : Int64} {e : Execution} {err : QueryError}
    (h : request x.config now e = .error err) (before after : List Execution) :
    x.executeAll store now (before ++ e :: after) =
      ((x.executeAll store now (before ++ after)).1,
        (x.executeAll store now (before ++ after)).2.insertIdx before.length
          (.ofError (.query err))) := by
  have hrequests : ((before ++ e :: after).map (request x.config now)).filterMap Except.toOption =
      ((before ++ after).map (request x.config now)).filterMap Except.toOption := by
    simp only [List.map_append, List.map_cons, List.filterMap_append, h]
    rfl
  dsimp only [executeAll]
  rw [hrequests]
  simp only [List.map_append, List.map_cons, h, fill_error, List.length_map]

theorem execute_eq {now : Int64} {e : Execution} {r : Request}
    (h : request x.config now e = .ok r) :
    ∃ phase finished, (x.execute store now e).1.cache.tasks[x.cache.tasks.length]? =
        some ⟨r, phase⟩ ∧
      (x.execute store now e).2 = resultOf x.clock (Task.reply? ⟨r, phase⟩, finished) ∧
      (x.execute store now e).1 = (x.performAll store [r]).1 := by
  have honly : [r][0]? = some r := rfl
  obtain ⟨phase, finished, hphase, hreply⟩ := exists_task_of_performAll store x honly
  have hone : (x.performAll store [r]).2 = [(Task.reply? ⟨r, phase⟩, finished)] := by
    rw [performAll_snd] at hreply ⊢
    exact congrArg (fun a => [a]) (Option.some.inj hreply)
  have hperform : x.perform store r =
      ((x.performAll store [r]).1, Task.reply? ⟨r, phase⟩, finished) := by
    unfold perform
    generalize x.performAll store [r] = performed at hone ⊢
    obtain ⟨y, replies⟩ := performed
    cases hone
    rfl
  rw [execute, h]
  dsimp only
  rw [hperform]
  exact ⟨phase, finished, hphase, rfl, rfl⟩

/-- With a record of the calls a query does what it does without, and only its task calls the
    store. -/
theorem exists_execute_recorded {now : Int64} {e : Execution} {r : Request}
    (h : request x.config now e = .ok r) :
    ∃ y phase finished,
      let result := resultOf x.clock (Task.reply? ⟨r, phase⟩, finished)
      x.recorded.execute store.recorded now e = (y, result) ∧
      x.execute store now e = (y.plain, result) ∧
      y.cache.tasks[x.cache.tasks.length]? = some ⟨r, phase⟩ ∧
      (∀ call ∈ y.store.calls, call.1 = x.cache.tasks.length) ∧
      Interleaving store x.recorded y := by
  obtain ⟨phase, finished, htask, hresult, hperformed⟩ :=
    execute_eq store.recorded (x := x.recorded) h
  have hbegin : Interleaving store x.recorded x.recorded := .refl
  obtain ⟨dealings, hmine, -, hcalls⟩ := (course_performAll store.recorded x.recorded [r]).deals
  refine ⟨(x.recorded.execute store.recorded now e).1, phase, finished, Prod.ext rfl hresult,
    ?_, htask, ?_, ?_⟩
  · have hplain : (x.execute store now e) =
        ((x.recorded.execute store.recorded now e).1.plain,
          (x.recorded.execute store.recorded now e).2) :=
      (plain_execute store x.recorded now e).symm
    rw [hplain, hresult]
    rfl
  · rw [hperformed, hcalls]
    intro call hcall
    obtain ⟨d, hd, rfl⟩ := List.mem_map.1 hcall
    have honly : d.1 = x.recorded.cache.tasks.length := by simpa using hmine d hd
    exact honly
  · rw [hperformed]
    exact hbegin.performAll [r]

/-- Queries that are started together are requests, all but those that are no queries. -/
theorem exists_task_of_executeAll {now : Int64} {e : Execution} {r : Request}
    (h : request x.config now e = .ok r) (before after : List Execution) :
    ∃ c phase, x.cache.tasks.length ≤ c ∧
      (x.executeAll store now (before ++ e :: after)).1.cache.tasks[c]? = some ⟨r, phase⟩ := by
  have hrequests : ((before ++ e :: after).map (request x.config now)).filterMap Except.toOption =
      (before.map (request x.config now)).filterMap Except.toOption ++
        r :: (after.map (request x.config now)).filterMap Except.toOption := by
    simp only [List.map_append, List.map_cons, List.filterMap_append, h]
    rfl
  have hplace : (((before ++ e :: after).map (request x.config now)).filterMap Except.toOption)[
      ((before.map (request x.config now)).filterMap Except.toOption).length]? = some r := by
    rw [hrequests, List.getElem?_append_right (Nat.le_refl _), Nat.sub_self]
    rfl
  obtain ⟨phase, -, hphase, -⟩ := exists_task_of_performAll store x hplace
  exact ⟨_, phase, Nat.le_add_right .., hphase⟩

/-- What becomes of a query that is rejected: the result is the failure, nothing is changed, the
    store is not called, and queries that are started together with it go on as if it were not
    there. -/
structure Rejects (store : Store σ) (x : Executor σ) (now : Int64) (e : Execution)
    (err : QueryError) : Prop where
  request : request x.config now e = .error err
  execute : x.execute store now e = (x, .failure err.kind err.message)
  recorded : x.recorded.execute store.recorded now e = (x.recorded, .failure err.kind err.message)
  executeAll : ∀ before after, x.executeAll store now (before ++ e :: after) =
    ((x.executeAll store now (before ++ after)).1,
      (x.executeAll store now (before ++ after)).2.insertIdx before.length
        (.failure err.kind err.message))

theorem execute_error {now : Int64} {e : Execution} {err : QueryError}
    (h : request x.config now e = .error err) :
    x.execute store now e = (x, .failure err.kind err.message) := by
  rw [execute, h]
  rfl

theorem Rejects.of_request {now : Int64} {e : Execution} {err : QueryError}
    (h : Executor.request x.config now e = .error err) : Rejects store x now e err where
  request := h
  execute := execute_error store h
  recorded := execute_error store.recorded h
  executeAll := executeAll_error store h

/-- What becomes of a query that is accepted: it is a request to run the operation that was shown.
    With a record of the calls the executor does what it does without, and a task of the request,
    among any other calls and in any order of their steps, hands the store the operation once if it
    acquires a handle, and else not at all. -/
structure Runs (store : Store σ) (x : Executor σ) (now : Int64) (e : Execution) (shown : Preview)
    (plan : Plan) (deadline : Nat) : Prop where
  request : request x.config now e = .ok (.acquire e.target (.run plan deadline))
  kind : plan.operation.kind = shown.kind
  opClass : plan.operation.kind.opClass = shown.opClass
  collection : plan.operation.collection? = shown.collection
  /-- Alone, the query is the one task that calls the store. -/
  execute : ∃ y phase finished,
    let result := resultOf x.clock
      (Task.reply? ⟨.acquire e.target (.run plan deadline), phase⟩, finished)
    x.recorded.execute store.recorded now e = (y, result) ∧
    x.execute store now e = (y.plain, result) ∧
    y.cache.tasks[x.cache.tasks.length]? =
      some ⟨.acquire e.target (.run plan deadline), phase⟩ ∧
    (∀ call ∈ y.store.calls, call.1 = x.cache.tasks.length) ∧
    Hands store y x.cache.tasks.length plan deadline phase
  /-- Among others that are started together, it is a task of its own. -/
  executeAll : ∀ before after, ∃ y results c phase,
    x.recorded.executeAll store.recorded now (before ++ e :: after) = (y, results) ∧
    x.executeAll store now (before ++ e :: after) = (y.plain, results) ∧
    x.cache.tasks.length ≤ c ∧
    y.cache.tasks[c]? = some ⟨.acquire e.target (.run plan deadline), phase⟩ ∧
    Hands store y c plan deadline phase
  interleaved : ∀ {y : Executor (Recorded σ)} {c : TaskId} {phase : Phase},
    Interleaving store x.recorded y → x.cache.tasks.length ≤ c →
    y.cache.tasks[c]? = some ⟨.acquire e.target (.run plan deadline), phase⟩ →
      Hands store y c plan deadline phase

theorem Runs.of_ofQuery {now : Int64} {e : Execution} {plan : Plan} (hreach : Reachable x.cache)
    (h : Plan.ofQuery now x.config.findLimit e.query = .ok plan) :
    Runs store x now e plan.preview plan (e.deadline.getD x.config.deadline) := by
  have hrequest : Executor.request x.config now e =
      .ok (.acquire e.target (.run plan (e.deadline.getD x.config.deadline))) := by
    rw [Executor.request, h]
    rfl
  have hbegin : Interleaving store x.recorded x.recorded := .refl
  exact {
    request := hrequest
    kind := rfl
    opClass := rfl
    collection := rfl
    execute := by
      obtain ⟨y, phase, finished, hrecorded, hplain, htask, hmine, hinterleaving⟩ :=
        exists_execute_recorded store hrequest
      exact ⟨y, phase, finished, hrecorded, hplain, htask, hmine,
        hinterleaving.hands hreach (Nat.le_refl _) htask⟩
    executeAll := fun before after => by
      obtain ⟨c, phase, hc, htask⟩ :=
        exists_task_of_executeAll store.recorded (x := x.recorded) hrequest before after
      exact ⟨_, _, c, phase, rfl, (plain_executeAll store x.recorded now _).symm, hc, htask,
        (hbegin.performAll _).hands hreach hc htask⟩
    interleaved := fun h hc htask => h.hands hreach hc htask }

/-- What is inspected is what runs, and it runs once. -/
theorem inspected_runs_once (x : Executor σ) (e : Execution) (now now' : Int64)
    (hclock : ReadsNoClock x.config.findLimit e.query) (hreach : Reachable x.cache) :
    (∀ err, inspect now x.config.findLimit e.query = .error err → Rejects store x now' e err) ∧
    (∀ p, inspect now x.config.findLimit e.query = .ok p →
      ∃ plan deadline, Runs store x now' e p plan deadline) := by
  rw [inspect, hclock now now']
  cases hplan : Plan.ofQuery now' x.config.findLimit e.query with
  | error err =>
    refine ⟨?_, fun p hp => by cases hp⟩
    rintro _ ⟨⟩
    exact .of_request store (by rw [request, hplan]; rfl)
  | ok plan =>
    refine ⟨fun err herr => (by cases herr), ?_⟩
    rintro _ ⟨⟩
    exact ⟨plan, _, .of_ofQuery store hreach hplan⟩

/-- A query that removes a document, on a cache without handles. The store is called to connect, told
    of the handle, and called once to run the query on it. -/
theorem inspected_runs_once_deleteOne :
    let x : Executor Session.Script := {
      registry := [("t", { address := "mongodb://h", defaultNamespace := "shop" })]
      config := {}, store := {} }
    let e : Execution := { target := "t", query := "db.a.deleteOne(\x7bk: 1\x7d)".toList }
    ReadsNoClock x.config.findLimit e.query ∧ Reachable x.cache ∧
      (∃ shown plan deadline, shown.kind = .deleteOne ∧ shown.opClass = .write ∧
        Runs Session.Script.store x 5 e shown plan deadline) ∧
      (((x.recorded.execute Session.Script.store.recorded 5 e).1.handed 0).map fun handed =>
        (handed.1, handed.2.kind)) = [(0, .deleteOne)] := by
  intro x e
  have hclock : ReadsNoClock x.config.findLimit e.query := by
    intro now now'
    cbv
  have hreach : Reachable x.cache := .refl _
  obtain ⟨-, haccepted⟩ := inspected_runs_once Session.Script.store x e 0 5 hclock hreach
  have hshown : (inspect 0 x.config.findLimit e.query).toOption.map
      (fun p => (p.kind, p.opClass)) = some (.deleteOne, .write) := by
    decide +kernel
  refine ⟨hclock, hreach, ?_, by decide +kernel⟩
  cases hp : inspect 0 x.config.findLimit e.query with
  | error err =>
    rw [hp] at hshown
    cases hshown
  | ok p =>
    rw [hp] at hshown
    obtain ⟨hkind, hclass⟩ := Prod.mk.inj (Option.some.inj hshown)
    obtain ⟨plan, deadline, hruns⟩ := haccepted p hp
    exact ⟨p, plan, deadline, hkind, hclass, hruns⟩

end Executor

end ShellQuery
