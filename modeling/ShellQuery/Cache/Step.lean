/-
  ShellQuery.Cache.Step

  The cache as a state machine. A step takes one task from one phase to the next: it takes a lock,
  looks at the table or a slot under its lock, or goes on with an answer of the store. Any
  interleaving of the tasks is a sequence of such steps; a step that is not possible yet is none.

  A look at the table takes two steps, one for its lock and one for the look, so that the lock of
  the table is seen to be free between any two looks. A stride is both of them.
-/
import ShellQuery.Cache.Task

namespace ShellQuery.Cache

/-- All tasks and the slots they share, with what happened so far. -/
structure State where
  table : Table := {}
  tasks : List Task := []
  /-- The target that each handle was opened for, by the number of the handle. -/
  opened : List String := []
  /-- All dealings with the store in order, each with the task that had it. -/
  events : List (TaskId × Event) := []

namespace State

/-! ## Parts of a step -/

/-- Adds a task for a request. -/
def submit (st : State) (r : Request) : State :=
  { st with tasks := st.tasks ++ [⟨r, r.begin⟩] }

/-- Puts a task into a phase. -/
def enter (st : State) (c : TaskId) (p : Phase) : State :=
  { st with tasks := st.tasks.modify c fun t => { t with phase := p } }

/-- Records a dealing of a task with the store. -/
def emit (st : State) (c : TaskId) (e : Event) : State :=
  { st with events := st.events ++ [(c, e)] }

/-- Changes one slot. -/
def modifySlot (st : State) (s : SlotId) (f : Slot → Slot) : State :=
  { st with table := st.table.modifySlot s f }

/-- Gives up the lock of a slot. -/
def release (st : State) (s : SlotId) : State :=
  st.modifySlot s Slot.release

/-- Sets what a slot holds. -/
def setEntry (st : State) (s : SlotId) (entry : Option HandleId) : State :=
  st.modifySlot s fun slot => { slot with entry }

/-- Takes the lock of the table, or looks at the table and gives the lock up. -/
def withTable (st : State) (c : TaskId) (look : State → State) : Option State :=
  match st.table.holder with
  | none => some { st with table := { st.table with holder := some c } }
  | some d =>
    if d = c then
      let st := look st
      some { st with table := { st.table with holder := none } }
    else none

/-- Goes on with a slot whose lock is there, takes the lock where it is free, or lines up for
    it. -/
def withSlot (st : State) (c : TaskId) (s : SlotId) (next : State → State) : Option State :=
  let slot := st.table.slot s
  match slot.holder with
  | none => some (st.modifySlot s fun slot => { slot with holder := some c })
  | some d =>
    if d = c then some (next st)
    else if slot.waiting.contains c then none
    else some (st.modifySlot s fun slot => { slot with waiting := slot.waiting ++ [c] })

/-- Finishes a task. -/
def finish (st : State) (c : TaskId) (reply : Reply) : State :=
  st.enter c (.finished reply)

/-- Puts a handle to its use. -/
def useHandle (st : State) (c : TaskId) (use : Use) (h : HandleId) : State :=
  match use with
  | .keep => st.finish c (.handle h)
  | .run plan _ => (st.emit c (.run h plan.operation)).enter c (.using h)
  | .list _ => (st.emit c (.listed h)).enter c (.using h)

/-- Closes a handle and waits for that in the given phase. -/
def closeHandle (st : State) (c : TaskId) (h : HandleId) (p : Phase) : State :=
  (st.emit c (.closed h)).enter c p

/-- The mapped slots in the order in which a task goes through them: that of their targets' arrival
    or any other. -/
def order? (st : State) : Answer → Option (List SlotId)
  | .proceed => some (st.table.mapped.map Prod.snd)
  | .arranged slots => if slots.isPerm (st.table.mapped.map Prod.snd) then some slots else none
  | _ => none

/-- Goes on to the next slot of a sweep, or finishes it. -/
def sweep (st : State) (c : TaskId) : List SlotId → State
  | [] => st.finish c .closedAll
  | pending => st.enter c (.sweeping pending)

/-- Goes on to the next slot of a count, or finishes it. -/
def count (st : State) (c : TaskId) (found : Nat) : List SlotId → State
  | [] => st.finish c (.counted found)
  | pending => st.enter c (.counting pending found)

/-! ## Steps -/

/-- A step of a task that wants a handle for a target. -/
def stepAcquire (timeout : Nat) (target : String) (use : Use) (st : State) (c : TaskId)
    (phase : Phase) (answer : Answer) : Option State :=
  match phase, answer with
  | .finding, .proceed =>
    st.withTable c fun st =>
      let (s, table) := st.table.findOrMake target
      { st with table }.enter c (.entering s)
  | .entering s, .proceed => st.withSlot c s fun st => st.enter c (.checking s)
  | .checking s, .proceed =>
    st.withTable c fun st =>
      -- the slot may have been dropped while it was waited for
      if st.table.isCurrent target s then
        match (st.table.slot s).entry with
        | some h => st.enter c (.probing s h)
        | none => st.enter c (.resolving s)
      else st.enter c (.leaving s none)
  | .probing s h, .alive true => some (((st.emit c (.probed h true)).release s).useHandle c use h)
  | .probing s h, .alive false =>
    some (((st.emit c (.probed h false)).setEntry s none).closeHandle c h (.discarding s h))
  | .discarding s _, .closed => some (st.enter c (.resolving s))
  | .resolving s, .resolved none => some (st.enter c (.evicting s (.unknownTarget target)))
  | .resolving s, .resolved (some descriptor) =>
    if descriptor.active then
      some ((st.emit c (.connect target descriptor timeout)).enter c (.connecting s descriptor))
    else some (st.enter c (.evicting s .inactive))
  | .connecting s _, .connected =>
    let h := st.opened.length
    some (({ st with opened := st.opened ++ [target] }.emit c (.opened h)).enter c (.storing s h))
  | .connecting s _, .refused message => some (st.enter c (.evicting s (.refused message)))
  | .connecting s _, .timedOut => some (st.enter c (.evicting s (.timedOut timeout)))
  | .storing s h, .proceed => some (((st.setEntry s (some h)).release s).useHandle c use h)
  | .evicting s reason, .proceed =>
    st.withTable c fun st =>
      let reply := .failed (.unavailable target reason)
      { st with table := st.table.unmapIfCurrent target s }.enter c (.leaving s (some reply))
  | .leaving s none, .proceed => some ((st.release s).enter c .finding)
  | .leaving s (some reply), .proceed => some ((st.release s).finish c reply)
  | .using _, answer =>
    match use, answer with
    | .run plan _, .ran (.ok v) => some (st.finish c (.value (plan.shape v)))
    | .run _ _, .ran (.error message) => some (st.finish c (.failed (.store message)))
    | .run _ deadline, .timedOut => some (st.finish c (.failed (.deadlineExceeded deadline)))
    | .list _, .listed (.ok names) => some (st.finish c (.collections names))
    | .list _, .listed (.error message) => some (st.finish c (.failed (.store message)))
    | .list deadline, .timedOut => some (st.finish c (.failed (.deadlineExceeded deadline)))
    | _, _ => none
  | _, _ => none

/-- A step of a task that closes the handle of a target. -/
def stepClose (target : String) (st : State) (c : TaskId) (phase : Phase) (answer : Answer) :
    Option State :=
  match phase, answer with
  | .unmapping, .proceed =>
    st.withTable c fun st =>
      match st.table.find? target with
      | none => st.finish c (.closed false)
      | some s => { st with table := st.table.unmap target }.enter c (.emptying s)
  | .emptying s, .proceed =>
    st.withSlot c s fun st =>
      match (st.table.slot s).entry with
      | none => (st.release s).finish c (.closed false)
      | some h => ((st.setEntry s none).release s).closeHandle c h (.closing h)
  | .closing _, .closed => some (st.finish c (.closed true))
  | _, _ => none

/-- A step of a task that closes every handle, in any order of their slots. It keeps the lock of a
    slot until the handle that was there is closed. -/
def stepCloseAll (st : State) (c : TaskId) (phase : Phase) (answer : Answer) : Option State :=
  match phase, answer with
  | .unmappingAll, answer => do
    let pending ← st.order? answer
    st.withTable c fun st => { st with table := st.table.unmapAll }.sweep c pending
  | .sweeping (s :: pending), .proceed =>
    st.withSlot c s fun st =>
      match (st.table.slot s).entry with
      | none => (st.release s).sweep c pending
      | some h => (st.setEntry s none).closeHandle c h (.sweepClosing s h pending)
  | .sweepClosing s _ pending, .closed => some ((st.release s).sweep c pending)
  | _, _ => none

/-- A step of a task that asks whether there is a handle for a target. -/
def stepContains (target : String) (st : State) (c : TaskId) (phase : Phase) (answer : Answer) :
    Option State :=
  match phase, answer with
  | .looking, .proceed =>
    st.withTable c fun st =>
      match st.table.find? target with
      | none => st.finish c (.contained false)
      | some s => st.enter c (.peeking s)
  | .peeking s, .proceed =>
    st.withSlot c s fun st =>
      (st.release s).finish c (.contained (st.table.slot s).entry.isSome)
  | _, _ => none

/-- A step of a task that counts the handles, in any order of their slots. -/
def stepCount (st : State) (c : TaskId) (phase : Phase) (answer : Answer) : Option State :=
  match phase, answer with
  | .listing, answer => do
    let pending ← st.order? answer
    st.withTable c fun st => st.count c 0 pending
  | .counting (s :: pending) found, .proceed =>
    st.withSlot c s fun st =>
      let found := if (st.table.slot s).entry.isSome then found + 1 else found
      (st.release s).count c found pending
  | _, _ => none

/-- A step of a task with what lets it go on, if it can go on. -/
def step? (timeout : Nat) (st : State) (c : TaskId) (answer : Answer) : Option State := do
  let task ← st.tasks[c]?
  match task.request with
  | .acquire target use => st.stepAcquire timeout target use c task.phase answer
  | .close target => st.stepClose target c task.phase answer
  | .closeAll => st.stepCloseAll c task.phase answer
  | .contains target => st.stepContains target c task.phase answer
  | .count => st.stepCount c task.phase answer

/-- A stride of a task: a step, and with the taking of the table's lock the look at the table. No
    task waits for anything while it has that lock, so it never pauses within a stride. -/
def stride? (timeout : Nat) (st : State) (c : TaskId) (answer : Answer) : Option State := do
  let st ← st.step? timeout c answer
  if st.table.holder = some c then st.step? timeout c answer else return st

end State

end ShellQuery.Cache
