/-
  ShellQuery.Executor

  Queries run against targets. An executor joins the cache's state machine with a store and a
  clock: it polls the tasks in the order of their arrival, each until it must wait, again and
  again; when all of them wait, the clock goes on to the next moment at which one is due.

  A query is planned first; a text that is no query never reaches the cache or the store.
-/
import ShellQuery.Cache.Step
import ShellQuery.Config
import ShellQuery.Target.Registry

namespace ShellQuery

open Cache

/-! ## Stores -/

/-- A result that is there after some milliseconds. A time of zero is none at all. -/
structure Delayed (α : Type) where
  result : α
  delay : Nat := 0

namespace Delayed

variable {α β : Type}

def map (f : α → β) (d : Delayed α) : Delayed β :=
  ⟨f d.result, d.delay⟩

end Delayed

/-- What a store does with state `σ`. A store is called once for each thing that is asked of it,
    at the moment it is asked for, and is told which task asks. -/
structure Store (σ : Type) where
  /-- Begins to connect to a target, within some milliseconds. -/
  connect : σ → TaskId → Target → Nat → σ × Delayed (Except String Unit)
  /-- The connection that a task has asked for is a handle from now on. -/
  opened : σ → TaskId → HandleId → σ
  /-- Whether a handle is alive. -/
  probe : σ → TaskId → HandleId → σ × Bool
  run : σ → TaskId → HandleId → Operation → σ × Delayed (Except String Value)
  list : σ → TaskId → HandleId → σ × Delayed (Except String (List String))
  close : σ → TaskId → HandleId → σ

/-- What a task that waits for a connection is told. -/
def Cache.Answer.ofConnection : Except String Unit → Answer
  | .ok () => .connected
  | .error message => .refused message

/-! ## Executors -/

/-- What the store comes to for a task that waits for it, when that is there, and when it is too
    late for it. -/
structure Timer where
  ready : Nat
  due : Nat
  answer : Answer

/-- An executor with a store in state `σ`. The clock counts milliseconds. -/
structure Executor (σ : Type) where
  registry : Registry
  config : Config
  cache : State := {}
  store : σ
  clock : Nat := 0
  /-- The timers of the tasks that wait for the store. -/
  timers : List (TaskId × Timer) := []
  /-- When each task has finished. -/
  finishTimes : List (TaskId × Nat) := []

namespace Executor

variable {σ : Type} (store : Store σ)

/-! ## Steps -/

/-- Lets a task wait for the store, for at most `limit` milliseconds. -/
def await (x : Executor σ) (c : TaskId) (limit : Nat) (answer : Delayed Answer) : Executor σ :=
  { x with timers := (c, ⟨x.clock + answer.delay, x.clock + limit, answer.result⟩) :: x.timers }

/-- Stops the timer of a task. -/
def stopTimer (x : Executor σ) (c : TaskId) : Executor σ :=
  { x with timers := x.timers.filter (·.1 ≠ c) }

/-- What a task that waits for the store is told by now. Where the result is there as the time runs
    out, the result counts. -/
def awaited? (x : Executor σ) (c : TaskId) : Option Answer :=
  (x.timers.lookup c).bind fun t =>
    if t.ready ≤ x.clock then some t.answer
    else if t.due ≤ x.clock then some .timedOut
    else none

/-- What lets a task go on, if it need not wait. -/
def answer? (x : Executor σ) (c : TaskId) (task : Task) : Option (Executor σ × Answer) :=
  match task.phase, task.request with
  | .probing _ h, _ =>
    let (s, alive) := store.probe x.store c h
    some ({ x with store := s }, .alive alive)
  | .discarding _ _, _ | .closing _, _ | .sweepClosing _ _ _, _ => some (x, .closed)
  | .resolving _, .acquire target _ => some (x, .resolved (x.registry.find? target))
  | .connecting _ _, _ | .using _, _ => (x.awaited? c).map fun answer => (x.stopTimer c, answer)
  | .finished _, _ => none
  | _, _ => some (x, .proceed)

/-- Does what a task has come to: has the store begin what the task waits for from now on, or tells
    it what the task has. -/
def attend (x : Executor σ) (c : TaskId) (task : Task) : Executor σ :=
  match task.request, task.phase with
  | .acquire _ _, .connecting _ descriptor =>
    let limit := x.config.connectTimeout
    let (s, result) := store.connect x.store c descriptor limit
    { x with store := s }.await c limit (result.map .ofConnection)
  | .acquire _ _, .storing _ h => { x with store := store.opened x.store c h }
  | .acquire _ (.run plan deadline), .using h =>
    let (s, result) := store.run x.store c h plan.operation
    { x with store := s }.await c deadline (result.map .ran)
  | .acquire _ (.list deadline), .using h =>
    let (s, result) := store.list x.store c h
    { x with store := s }.await c deadline (result.map .listed)
  | .acquire _ _, .discarding _ h | .close _, .closing h | .closeAll, .sweepClosing _ h _ =>
    { x with store := store.close x.store c h }
  | _, .finished _ => { x with finishTimes := (c, x.clock) :: x.finishTimes }
  | _, _ => x

/-- A step of a task, if it can go on. -/
def step? (x : Executor σ) (c : TaskId) : Option (Executor σ) := do
  let task ← x.cache.tasks[c]?
  let (y, answer) ← x.answer? store c task
  let cache ← x.cache.step? x.config.connectTimeout c answer
  let task ← cache.tasks[c]?
  return { y with cache }.attend store c task

/-! ## Polling -/

/-- Lets a task go on until it must wait, and tells whether it went on at all. A task takes no
    more steps than `fuel` before it waits or finishes. -/
def poll (c : TaskId) : Nat → Executor σ → Executor σ × Bool
  | 0, x => (x, false)
  | fuel + 1, x =>
    match x.step? store c with
    | none => (x, false)
    | some x => ((poll c fuel x).1, true)

/-- How many steps a task takes at most between two waits: those of an acquisition, and those of
    a sweep of as many slots as there are. -/
def pollFuel (x : Executor σ) : Nat :=
  32 + 4 * x.cache.table.slots.length

/-- Polls tasks in order, and tells whether any of them went on. -/
def round (tasks : List TaskId) (x : Executor σ) : Executor σ × Bool :=
  tasks.foldl (fun (x, moved) c =>
    let (x, movedNow) := poll store c x.pollFuel x
    (x, moved || movedNow)) (x, false)

/-- The next moment at which a task that waits is ready or due. -/
def nextMoment? (x : Executor σ) : Option Nat :=
  (x.timers.map fun (_, t) => min t.ready t.due).min?

/-- Runs tasks until none of them can go on any more. -/
def runTasks (tasks : List TaskId) : Nat → Executor σ → Executor σ
  | 0, x => x
  | fuel + 1, x =>
    match round store tasks x with
    | (x, true) => runTasks tasks fuel x
    | (x, false) =>
      match x.nextMoment? with
      | none => x
      | some moment => runTasks tasks fuel { x with clock := max x.clock moment }

/-- How many rounds some tasks take at most. Each round lets a task go on, but for one before each
    move of the clock; a task lets go of no more than a handful of locks and timers. -/
def roundFuel (tasks : List TaskId) : Nat :=
  16 * (tasks.length + 1)

/-- Submits requests together, runs them, and tells what each comes to and when. -/
def performAll (x : Executor σ) (requests : List Request) :
    Executor σ × List (Option Reply × Nat) :=
  let first := x.cache.tasks.length
  let tasks := (List.range requests.length).map (first + ·)
  let x := { x with cache := requests.foldl State.submit x.cache }
  let x := runTasks store tasks (roundFuel tasks) x
  (x, tasks.map fun c =>
    (x.cache.tasks[c]?.bind Task.reply?, (x.finishTimes.lookup c).getD x.clock))

/-- Performs one request. -/
def perform (x : Executor σ) (request : Request) : Executor σ × Option Reply × Nat :=
  match x.performAll store [request] with
  | (x, [result]) => (x, result)
  | (x, _) => (x, none, x.clock)

/-! ## Calls -/

/-- A query for a target, with a time limit of its own or the usual one. -/
structure Execution where
  target : String
  query : List Char
  deadline : Option Nat := none

/-- The request that a query comes to, if its text can be planned. -/
def request (config : Config) (now : Int64) (e : Execution) : Except QueryError Request := do
  let plan ← Plan.ofQuery now config.findLimit e.query
  return .acquire e.target (.run plan (e.deadline.getD config.deadline))

/-- The result of a query by what its request came to. -/
def resultOf (started : Nat) : Option Reply × Nat → ExecutionResult
  | (some (.value v), finished) => .ofValue v (finished - started)
  | (some (.failed e), _) => .ofError e
  | _ => .ofError (.store "")

/-- Puts results in the places of the requests they belong to. -/
def fill (started : Nat) :
    List (Except QueryError Request) → List (Option Reply × Nat) → List ExecutionResult
  | [], _ => []
  | .error e :: rest, replies => .ofError (.query e) :: fill started rest replies
  | .ok _ :: rest, reply :: replies => resultOf started reply :: fill started rest replies
  | .ok _ :: rest, [] => resultOf started (none, started) :: fill started rest []

/-- Runs queries that are started together. -/
def executeAll (x : Executor σ) (now : Int64) (es : List Execution) :
    Executor σ × List ExecutionResult :=
  let requests := es.map (request x.config now)
  let started := x.clock
  let (x, replies) := x.performAll store (requests.filterMap Except.toOption)
  (x, fill started requests replies)

/-- Runs a query. -/
def execute (x : Executor σ) (now : Int64) (e : Execution) : Executor σ × ExecutionResult :=
  match request x.config now e with
  | .error e => (x, .ofError (.query e))
  | .ok r =>
    let started := x.clock
    let (x, reply) := x.perform store r
    (x, resultOf started reply)

/-- Connects to a target and lists its collections. -/
def probe (x : Executor σ) (target : String) :
    Executor σ × Except ExecutionError (List String) :=
  match x.perform store (.acquire target (.list x.config.deadline)) with
  | (x, some (.collections names), _) => (x, .ok names)
  | (x, some (.failed e), _) => (x, .error e)
  | (x, _) => (x, .error (.store ""))

/-- Closes the handle of a target, and tells whether there was one. -/
def close (x : Executor σ) (target : String) : Executor σ × Bool :=
  match x.perform store (.close target) with
  | (x, some (.closed wasOpen), _) => (x, wasOpen)
  | (x, _) => (x, false)

/-- Closes every handle. -/
def closeAll (x : Executor σ) : Executor σ :=
  (x.perform store .closeAll).1

/-- Whether a handle is cached for a target. -/
def contains (x : Executor σ) (target : String) : Executor σ × Bool :=
  match x.perform store (.contains target) with
  | (x, some (.contained b), _) => (x, b)
  | (x, _) => (x, false)

/-- The number of cached handles. -/
def count (x : Executor σ) : Executor σ × Nat :=
  match x.perform store .count with
  | (x, some (.counted n), _) => (x, n)
  | (x, _) => (x, 0)

end Executor

end ShellQuery
