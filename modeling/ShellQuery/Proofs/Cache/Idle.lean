/-
  ShellQuery.Proofs.Cache.Idle

  The cache between calls. Every lock is free then, so that a count, called next, goes from slot to
  slot and back without waiting for anyone, and finds each slot as it was.
-/
import ShellQuery.Proofs.Cache.Locks

namespace ShellQuery.Cache

namespace State

/-- Whether no call is in progress. Handles may still be in use. -/
def Idle (st : State) : Prop :=
  ∀ task ∈ st.tasks, task.phase.isOver = true

/-- Lets one task take steps that wait for no one, as far as it comes with so many of them. -/
def runAlone (timeout : Nat) (c : TaskId) : Nat → State → State
  | 0, st => st
  | n + 1, st =>
    match st.step? timeout c .proceed with
    | some st' => runAlone timeout c n st'
    | none => st

end State

/-- A slot whose lock nobody has or waits for. -/
def Slot.Free (s : Slot) : Prop :=
  s.holder = none ∧ s.waiting = []

namespace Locks

variable {st : State}

/-- Between calls nobody has the lock of the table. -/
theorem table_of_idle (h : Locks st) (hidle : st.Idle) : st.table.holder = none := by
  cases hholder : st.table.holder with
  | none => rfl
  | some d =>
    obtain ⟨r, p, htask, hwants⟩ := h.table hholder
    have hover := hidle _ (List.mem_of_getElem? htask)
    cases p <;> simp [Phase.isOver, Phase.wantsTable] at hover hwants

/-- Between calls nobody has the lock of a slot or waits for it. -/
theorem slot_of_idle (h : Locks st) (hidle : st.Idle) (s : SlotId) : (st.table.slot s).Free := by
  have hfree : (st.table.slot s).holder = none := by
    cases hholder : (st.table.slot s).holder with
    | none => rfl
    | some d =>
      obtain ⟨r, p, htask, hslot⟩ := h.deals hholder
      have hover := hidle _ (List.mem_of_getElem? htask)
      cases p <;> simp [Phase.isOver, Phase.slot?, Phase.wants?, Phase.holds?] at hover hslot
  refine ⟨hfree, ?_⟩
  by_cases hwaiting : (st.table.slot s).waiting = []
  · exact hwaiting
  · exact absurd hfree ((h.orderly s).held hwaiting)

end Locks

/-! ## A count of its own -/

section
variable {timeout : Nat} {c : TaskId}

theorem State.runAlone_of_step {st st' : State} {n : Nat}
    (h : st.step? timeout c .proceed = some st') :
    st.runAlone timeout c (n + 1) = st'.runAlone timeout c n := by
  simp [runAlone, h]

/-- A task that has finished stays as it is. -/
theorem State.runAlone_of_finished {st : State} {r : Request} {reply : Reply}
    (htask : st.tasks[c]? = some ⟨r, .finished reply⟩) (n : Nat) :
    st.runAlone timeout c n = st := by
  cases n with
  | zero => rfl
  | succ n =>
    have hnone : st.step? timeout c .proceed = none := by
      cases r <;> simp [step?, htask, stepAcquire, stepClose, stepCloseAll, stepContains, stepCount]
    simp [runAlone, hnone]

/-- Taking the lock of a free slot and giving it up again changes nothing. -/
theorem State.release_lock {st : State} {s : SlotId} (hfree : (st.table.slot s).Free) :
    (st.modifySlot s fun slot => { slot with holder := some c }).release s = st := by
  have hslots : (st.table.slots.modify s fun slot => { slot with holder := some c }).modify s
      Slot.release = st.table.slots := by
    rw [List.modify_modify_eq]
    refine List.ext_getElem? fun i => ?_
    by_cases hi : s = i
    · subst hi
      cases hslot : st.table.slots[s]? with
      | none => simp [hslot]
      | some slot =>
        have hfree : slot.Free := by simpa [Table.slot, hslot] using hfree
        obtain ⟨entry, holder, waiting⟩ := slot
        obtain ⟨rfl, rfl⟩ := hfree
        simp [hslot, Slot.release]
    · simp [hi]
  simp [release, modifySlot, Table.modifySlot, hslots]

/-- A count looks at a free slot in two steps, one for its lock. -/
theorem State.runAlone_counting {st : State} {s : SlotId} {pending : List SlotId} {found n : Nat}
    (htask : st.tasks[c]? = some ⟨.count, .counting (s :: pending) found⟩)
    (hlt : s < st.table.slots.length) (hfree : (st.table.slot s).Free) :
    st.runAlone timeout c (n + 2) =
      (st.enter c (.count (if (st.table.slot s).entry.isSome then found + 1 else found)
        pending)).runAlone timeout c n := by
  have hlock : st.step? timeout c .proceed =
      some (st.modifySlot s fun slot => { slot with holder := some c }) := by
    simp [step?, htask, stepCount, withSlot, hfree.1]
  have hslot : (st.modifySlot s fun slot => { slot with holder := some c }).table.slot s =
      { st.table.slot s with holder := some c } := Table.slot_modifySlot_self hlt
  have hcount : (st.modifySlot s fun slot => { slot with holder := some c }).step? timeout c
      .proceed = some (st.enter c
        (.count (if (st.table.slot s).entry.isSome then found + 1 else found) pending)) := by
    simp only [step?, modifySlot_tasks, htask, Option.bind_eq_bind, Option.bind_some, stepCount,
      withSlot, hslot, if_pos, count_eq, release_lock hfree]
  rw [runAlone_of_step hlock, runAlone_of_step hcount]

/-- A count of free slots comes to the number of those that hold a handle. -/
theorem State.runAlone_count {st : State} {pending : List SlotId} {found n : Nat}
    (htask : st.tasks[c]? = some ⟨.count, .count found pending⟩)
    (hpending : ∀ s ∈ pending, s < st.table.slots.length ∧ (st.table.slot s).Free)
    (hn : 2 * pending.length ≤ n) :
    ((st.runAlone timeout c n).tasks[c]?.bind Task.reply?) =
      some (.counted (found + pending.countP fun s => (st.table.slot s).entry.isSome)) := by
  induction pending generalizing st found n with
  | nil =>
    rw [runAlone_of_finished htask, htask]
    rfl
  | cons s pending ih =>
    obtain ⟨n, rfl⟩ : ∃ m, n = m + 2 := ⟨n - 2, by simp at hn; omega⟩
    obtain ⟨hlt, hfree⟩ := hpending s (.head _)
    rw [runAlone_counting htask hlt hfree]
    have htask' {p : Phase} : (st.enter c p).tasks[c]? = some ⟨.count, p⟩ :=
      getElem?_self_of_enter htask rfl
    refine (ih htask' (fun s' hs' => hpending s' (.tail _ hs')) ?_).trans ?_
    · simp at hn
      omega
    simp only [enter_table, List.countP_cons]
    split <;> simp [Nat.add_assoc, Nat.add_comm]

/-- Between calls a count comes to the number of mapped slots that hold a handle. -/
theorem State.runAlone_of_idle {st : State} (h : Locks st) (hidle : st.Idle)
    (hmapped : ∀ {target s}, (target, s) ∈ st.table.mapped → s < st.table.slots.length) {n : Nat}
    (hn : 2 * st.table.mapped.length + 2 ≤ n) :
    (((st.submit .count).runAlone timeout st.tasks.length n).tasks[st.tasks.length]?.bind
      Task.reply?) = some (.counted st.table.handles.length) := by
  have hfree := h.table_of_idle hidle
  have htask : (st.submit .count).tasks[st.tasks.length]? = some ⟨.count, .listing⟩ := by
    simp [Request.begin]
  obtain ⟨n, rfl⟩ : ∃ m, n = m + 2 := ⟨n - 2, by omega⟩
  -- the look at the table takes two steps
  have hlock : (st.submit .count).step? timeout st.tasks.length .proceed =
      some { st.submit .count with table := { st.table with holder := some st.tasks.length } } := by
    rw [step?, htask]
    simp [stepCount, withTable, hfree]
  have hlist : step? timeout
      { st.submit .count with table := { st.table with holder := some st.tasks.length } }
      st.tasks.length .proceed =
      some ((st.submit .count).enter st.tasks.length (.count 0 (st.table.mapped.map Prod.snd))) := by
    rw [step?, show (_ : Option Task) = _ from htask]
    simp [stepCount, withTable, count_eq, ← hfree, enter]
  rw [runAlone_of_step hlock, runAlone_of_step hlist]
  refine (runAlone_count (getElem?_self_of_enter htask rfl) (fun s hs => ?_) ?_).trans ?_
  · obtain ⟨⟨target, _⟩, hmem, rfl⟩ := List.mem_map.1 hs
    exact ⟨hmapped hmem, h.slot_of_idle hidle _⟩
  · simp
    omega
  · simp [Table.handles, List.length_filterMap_eq_countP, List.countP_map, Function.comp_def]

end

end ShellQuery.Cache
