/-
  ShellQuery.Cache.Slot

  The places where a cache keeps its handles. A slot holds at most one handle and is guarded by a
  lock that is granted in the order of the requests. A table maps each target to its slot; it is
  guarded by a lock of its own, which is held only for a single look at the table.
-/
import ShellQuery.Target

namespace ShellQuery.Cache

/-- The number of a slot, in the order of their creation. -/
abbrev SlotId : Type := Nat

/-- The number of a handle, in the order of their opening. -/
abbrev HandleId : Type := Nat

/-- The number of a task, in the order of their arrival. -/
abbrev TaskId : Type := Nat

/-- A place for a handle. -/
structure Slot where
  /-- The handle that is cached here. -/
  entry : Option HandleId := none
  /-- The task that has the lock. -/
  holder : Option TaskId := none
  /-- The tasks that wait for the lock, the next one first. -/
  waiting : List TaskId := []
deriving DecidableEq, Repr, Inhabited

namespace Slot

/-- A lock is given up: the next task that waits has it from then on. -/
def release (s : Slot) : Slot :=
  match s.waiting with
  | [] => { s with holder := none }
  | next :: rest => { s with holder := some next, waiting := rest }

end Slot

/-- All slots, and the table that leads to those in use. -/
structure Table where
  /-- The slot of each target that has one. -/
  mapped : List (String × SlotId) := []
  /-- Every slot ever made, by its number. A slot that is no longer mapped may still be held or
      waited for. -/
  slots : List Slot := []
  /-- The task that has the lock of the table. -/
  holder : Option TaskId := none
deriving DecidableEq, Repr, Inhabited

namespace Table

/-- The slot with a number. -/
def slot (t : Table) (s : SlotId) : Slot :=
  t.slots[s]?.getD {}

/-- Changes one slot. -/
def modifySlot (t : Table) (s : SlotId) (f : Slot → Slot) : Table :=
  { t with slots := t.slots.modify s f }

/-- The slot that a target is mapped to. -/
def find? (t : Table) (target : String) : Option SlotId :=
  t.mapped.lookup target

/-- The slot of a target, made and mapped if there is none. -/
def findOrMake (t : Table) (target : String) : SlotId × Table :=
  match t.find? target with
  | some s => (s, t)
  | none =>
    (t.slots.length,
      { t with mapped := t.mapped ++ [(target, t.slots.length)], slots := t.slots ++ [{}] })

/-- Whether a slot is the one that a target is mapped to. -/
def isCurrent (t : Table) (target : String) (s : SlotId) : Bool :=
  t.find? target = some s

/-- Drops the mapping of a target. -/
def unmap (t : Table) (target : String) : Table :=
  { t with mapped := t.mapped.filter (·.1 ≠ target) }

/-- Drops the mapping of a target if it leads to the given slot. -/
def unmapIfCurrent (t : Table) (target : String) (s : SlotId) : Table :=
  if t.isCurrent target s then t.unmap target else t

/-- Drops all mappings. -/
def unmapAll (t : Table) : Table :=
  { t with mapped := [] }

/-! ## Views -/

/-- The handle that is cached for a target. -/
def handle? (t : Table) (target : String) : Option HandleId :=
  (t.find? target).bind fun s => (t.slot s).entry

/-- The handles in mapped slots. -/
def handles (t : Table) : List HandleId :=
  t.mapped.filterMap fun (_, s) => (t.slot s).entry

/-! ## Finding what was mapped -/

theorem find?_findOrMake (t : Table) (target : String) :
    (t.findOrMake target).2.find? target = some (t.findOrMake target).1 := by
  cases h : t.find? target with
  | some s => simp [findOrMake, h]
  | none =>
    simp only [findOrMake, h]
    simp only [find?] at h ⊢
    rw [List.lookup_append, h]
    simp

theorem find?_unmap_self (t : Table) (target : String) :
    (t.unmap target).find? target = none := by
  simp only [unmap, find?, List.lookup_eq_none_iff, List.mem_filter]
  rintro ⟨name, s⟩ ⟨-, hname⟩
  have : name ≠ target := by simpa using hname
  simpa using this.symm

end Table

end ShellQuery.Cache
