/-
  ShellQuery.Cache.Task

  What is asked of a cache, how far it has come, and what it comes to. A task is always in one of
  its phases: it wants the lock of the table or of a slot, or it waits for the store.
-/
import ShellQuery.Cache.Slot
import ShellQuery.Result

namespace ShellQuery.Cache

/-- What a handle is wanted for. -/
inductive Use where
  /-- To be handed out. -/
  | keep
  /-- To run the operation of a plan, for at most the given milliseconds. -/
  | run (plan : Plan) (deadline : Nat)
  /-- To list the collections, for at most the given milliseconds. -/
  | list (deadline : Nat)

/-- What is asked of a cache. -/
inductive Request where
  | acquire (target : String) (use : Use)
  | close (target : String)
  | closeAll
  | contains (target : String)
  | count

/-- What a task comes to. -/
inductive Reply where
  | handle (h : HandleId)
  | value (v : Value)
  | collections (names : List String)
  /-- Whether there was a handle to close. -/
  | closed (wasOpen : Bool)
  | closedAll
  | contained (b : Bool)
  | counted (n : Nat)
  | failed (e : ExecutionError)

/-- How far a task has come. -/
inductive Phase where
  /-- Wants the table, to find or make the slot of its target. -/
  | finding
  /-- Wants the lock of a slot. -/
  | entering (s : SlotId)
  /-- Has the slot and wants the table, to see whether the slot is still in use. -/
  | checking (s : SlotId)
  /-- Has the slot and waits for the store to say whether its handle is alive. -/
  | probing (s : SlotId) (h : HandleId)
  /-- Has the slot and waits for a dead handle to be closed. -/
  | discarding (s : SlotId) (h : HandleId)
  /-- Has the slot and waits for the registry. -/
  | resolving (s : SlotId)
  /-- Has the slot and waits for the store to connect. -/
  | connecting (s : SlotId) (descriptor : Target)
  /-- Has the slot and a new handle for it. -/
  | storing (s : SlotId) (h : HandleId)
  /-- Has the slot, which stays empty, and wants the table, to drop the slot. -/
  | evicting (s : SlotId) (reason : Unavailability)
  /-- Gives up a slot, to begin again or with a reply. -/
  | leaving (s : SlotId) (reply : Option Reply)
  /-- Waits for the store to use a handle. -/
  | using (h : HandleId)
  /-- Wants the table, to drop the slot of its target. -/
  | unmapping
  /-- Wants the lock of a slot, to take its handle out. -/
  | emptying (s : SlotId)
  /-- Waits for a handle to be closed. -/
  | closing (h : HandleId)
  /-- Wants the table, to drop all slots. -/
  | unmappingAll
  /-- Wants the lock of the first of some slots, to take its handle out. -/
  | sweeping (pending : List SlotId)
  /-- Has a slot, waits for its handle to be closed, and goes on with the others. -/
  | sweepClosing (s : SlotId) (h : HandleId) (pending : List SlotId)
  /-- Wants the table, to find the slot of its target. -/
  | looking
  /-- Wants the lock of a slot, to see whether it holds a handle. -/
  | peeking (s : SlotId)
  /-- Wants the table, to list the slots. -/
  | listing
  /-- Wants the lock of the first of some slots, having found some handles. -/
  | counting (pending : List SlotId) (found : Nat)
  | finished (reply : Reply)

/-- The phase that a task begins in. -/
def Request.begin : Request → Phase
  | .acquire _ _ => .finding
  | .close _ => .unmapping
  | .closeAll => .unmappingAll
  | .contains _ => .looking
  | .count => .listing

/-- A request in progress. -/
structure Task where
  request : Request
  phase : Phase

/-- What a task has come to, once it has finished. -/
def Task.reply? (t : Task) : Option Reply :=
  match t.phase with
  | .finished reply => some reply
  | _ => none

/-! ## Dealings with the store -/

/-- What the store is asked for and what it does. -/
inductive Event where
  /-- A connection for a target is asked for, to be made within some milliseconds. -/
  | connect (target : String) (descriptor : Target) (timeout : Nat)
  | opened (h : HandleId)
  | probed (h : HandleId) (alive : Bool)
  | run (h : HandleId) (operation : Operation)
  | listed (h : HandleId)
  | closed (h : HandleId)

/-- What lets a task go on. -/
inductive Answer where
  /-- Nothing is waited for but locks. -/
  | proceed
  | alive (b : Bool)
  | closed
  /-- What the registry has for the target. -/
  | resolved (descriptor : Option Target)
  | connected
  | refused (message : String)
  /-- The time for connecting, running or listing is over. -/
  | timedOut
  | ran (result : Except String Value)
  | listed (result : Except String (List String))
  /-- The order in which the mapped slots are gone through. -/
  | arranged (slots : List SlotId)

end ShellQuery.Cache
