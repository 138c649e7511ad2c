/-
  ShellQuery.Session

  Sessions of an executor over a scripted store: the script says how the store answers from some
  step on, and every step comes to an outcome, the dealings with the store, and what the cache
  holds after it.
-/
import ShellQuery.Executor

namespace ShellQuery.Session

open Cache

/-! ## The scripted store -/

/-- What the store answers, and the handles that it has opened. -/
structure Script where
  reply : Value := .null
  runError : Option String := none
  connectError : Option String := none
  runDelay : Nat := 0
  connectDelay : Nat := 0
  collections : List String := []
  /-- The namespaces that tasks have asked for connections to. -/
  asked : List (TaskId × String) := []
  /-- The namespace of each handle, and whether it is alive. -/
  handles : List (HandleId × String × Bool) := []

namespace Script

/-- The scripted error, or the given result. -/
def answer {α : Type} (error : Option String) (result : α) : Except String α :=
  match error with
  | some message => .error message
  | none => .ok result

/-- Marks handles as dead. -/
def kill (s : Script) (p : HandleId → String → Bool) : Script :=
  { s with handles := s.handles.map fun (h, ns, alive) => (h, ns, alive && !p h ns) }

/-- The store that a script describes. -/
def store : Store Script where
  connect s c target _ :=
    ({ s with asked := (c, target.defaultNamespace) :: s.asked },
      ⟨answer s.connectError (), s.connectDelay⟩)
  opened s c h :=
    let ns := (s.asked.lookup c).getD ""
    { s with handles := (h, ns, true) :: s.handles }
  probe s _ h := (s, (s.handles.lookup h).any (·.2))
  run s _ _ _ := (s, ⟨answer s.runError s.reply, s.runDelay⟩)
  list s _ _ := (s, ⟨answer s.runError s.collections, s.runDelay⟩)
  close s _ h := s.kill fun d _ => d = h

end Script

/-! ## Steps -/

/-- A step of a session. -/
inductive Step where
  /-- Sets the reply, by its text. -/
  | reply (text : List Char)
  | failRun (message : Option String)
  | failConnect (message : Option String)
  | delayRun (millis : Nat)
  | delayConnect (millis : Nat)
  | collections (names : List String)
  /-- Marks handles as dead, all of them or those of a namespace. -/
  | breakHandles (ns : Option String)
  | setTarget (id : String) (target : Target)
  | execute (e : Executor.Execution)
  /-- Starts queries together. -/
  | concurrent (es : List Executor.Execution)
  | inspect (query : List Char)
  | probe (target : String)
  | close (target : String)
  | closeAll

/-- What a step comes to. -/
inductive Outcome where
  | done
  | rejected (e : QueryError)
  | result (r : ExecutionResult)
  | results (rs : List ExecutionResult)
  | preview (p : Preview)
  | names (ns : List String)
  | failed (e : ExecutionError)
  | closed (wasOpen : Bool)

/-- What a cache holds. -/
structure Holdings where
  /-- The registered targets with a cached handle. -/
  cached : List String
  /-- The number of cached handles. -/
  handles : Nat

/-- A step as it is reported, with what the cache holds after it. -/
structure Report where
  outcome : Outcome
  events : List Event
  holdings : Holdings

/-- Changes the script. -/
def edit (x : Executor Script) (f : Script → Script) : Executor Script × Outcome :=
  ({ x with store := f x.store }, .done)

/-- Does a step. -/
def act (now : Int64) (x : Executor Script) : Step → Executor Script × Outcome
  | .reply text =>
    match parseValue now text with
    | .ok v => edit x fun s => { s with reply := v }
    | .error e => (x, .rejected e)
  | .failRun message => edit x fun s => { s with runError := message }
  | .failConnect message => edit x fun s => { s with connectError := message }
  | .delayRun millis => edit x fun s => { s with runDelay := millis }
  | .delayConnect millis => edit x fun s => { s with connectDelay := millis }
  | .collections names => edit x fun s => { s with collections := names }
  | .breakHandles none => edit x fun s => s.kill fun _ _ => true
  | .breakHandles (some ns) => edit x fun s => s.kill fun _ other => other = ns
  | .setTarget id target => ({ x with registry := x.registry.insert id target }, .done)
  | .execute e =>
    let (x, r) := x.execute Script.store now e
    (x, .result r)
  | .concurrent es =>
    let (x, rs) := x.executeAll Script.store now es
    (x, .results rs)
  | .inspect query =>
    match inspect now x.config.findLimit query with
    | .ok p => (x, .preview p)
    | .error e => (x, .rejected e)
  | .probe target =>
    match x.probe Script.store target with
    | (x, .ok names) => (x, .names names)
    | (x, .error e) => (x, .failed e)
  | .close target =>
    let (x, wasOpen) := x.close Script.store target
    (x, .closed wasOpen)
  | .closeAll => (x.closeAll Script.store, .done)

/-! ## Reports -/

/-- The number of a handle that is closed. -/
def closedHandle : Event → Nat
  | .closed h => h
  | _ => 0

/-- The dealings of a step as they are reported: handles that are closed together in the order of
    their numbers. -/
def reported (step : Step) (events : List Event) : List Event :=
  match step with
  | .closeAll => events.mergeSort fun a b => closedHandle a ≤ closedHandle b
  | _ => events

/-- What the cache holds, asked for target by target. -/
def survey (x : Executor Script) : Executor Script × Holdings :=
  let (x, cached) := x.registry.ids.foldl (fun (x, found) id =>
    let (x, b) := x.contains Script.store id
    (x, if b then found ++ [id] else found)) (x, [])
  let (x, handles) := x.count Script.store
  (x, { cached, handles })

/-- Does a step and reports it. -/
def report (now : Int64) (x : Executor Script) (step : Step) : Executor Script × Report :=
  let before := x.cache.events.length
  let (x, outcome) := act now x step
  let events := reported step ((x.cache.events.drop before).map Prod.snd)
  let (x, holdings) := survey x
  (x, { outcome, events, holdings })

/-- Does steps one after the other. -/
def run (now : Int64) (x : Executor Script) : List Step → List Report
  | [] => []
  | step :: rest =>
    let (x, r) := report now x step
    r :: run now x rest

end ShellQuery.Session
