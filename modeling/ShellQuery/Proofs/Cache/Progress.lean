/-
  ShellQuery.Proofs.Cache.Progress

  No deadlock in the cache. A call waits for another one where it wants a lock that the other has
  (`WaitsFor`). Who has the lock of the table waits for nobody; who has a slot waits for nobody but
  the holder of the table; so whoever waits, waits in the end for a call that waits for nobody
  (`exists_free`). Such a call can take a step at once, or it waits for the store and goes on with
  whatever the store answers (`exists_step`).
-/
import Mathlib.Logic.Relation
import ShellQuery.Proofs.Cache.Origin

namespace ShellQuery.Cache

/-! ## What a phase waits for -/

namespace Phase

/-- Whether a task waits for the store, or for the registry, before its call returns. -/
def awaitsStore : Phase → Bool
  | .probing _ _ | .discarding _ _ | .resolving _ | .connecting _ _ | .closing _
  | .sweepClosing _ _ _ => true
  | _ => false

/-- Whether an answer is one to what a call in progress waits for. A call that does not wait for the
    store goes on without an answer. -/
def heeds : Phase → Answer → Bool
  | .probing _ _, .alive _ | .resolving _, .resolved _ => true
  | .discarding _ _, .closed | .closing _, .closed | .sweepClosing _ _ _, .closed => true
  | .connecting _ _, .connected | .connecting _ _, .refused _ | .connecting _ _, .timedOut => true
  | p, .proceed => !p.isOver && !p.awaitsStore
  | _, _ => false

theorem isOver_of_wantsTable {p : Phase} (h : p.wantsTable = true) : p.isOver = false := by
  cases p <;> simp_all [wantsTable, isOver]

theorem isOver_of_slot? {p : Phase} {s : SlotId} (h : p.slot? = some s) : p.isOver = false := by
  cases p <;> simp_all [slot?, wants?, holds?, isOver]

end Phase

/-- Whether a task with a request can be in a phase. A sweep or a count is in none for an empty
    list of slots, as it finishes then. -/
def Request.passes : Request → Phase → Bool
  | .acquire _ _, .finding | .acquire _ _, .entering _ | .acquire _ _, .checking _
  | .acquire _ _, .probing _ _ | .acquire _ _, .discarding _ _ | .acquire _ _, .resolving _
  | .acquire _ _, .connecting _ _ | .acquire _ _, .storing _ _ | .acquire _ _, .evicting _ _
  | .acquire _ _, .leaving _ _ | .acquire _ _, .using _ => true
  | .close _, .unmapping | .close _, .emptying _ | .close _, .closing _ => true
  | .closeAll, .unmappingAll | .closeAll, .sweeping (_ :: _) | .closeAll, .sweepClosing _ _ _ => true
  | .contains _, .looking | .contains _, .peeking _ => true
  | .count, .listing | .count, .counting (_ :: _) _ => true
  | _, .finished _ => true
  | _, _ => false

theorem Request.passes_sweep (pending : List SlotId) :
    Request.closeAll.passes (.sweep pending) = true := by
  cases pending <;> rfl

theorem Request.passes_count (found : Nat) (pending : List SlotId) :
    Request.count.passes (.count found pending) = true := by
  cases pending <;> rfl

theorem Reachable.passes {st : State} (hreach : Reachable st) {c : TaskId} {r : Request} {p : Phase}
    (htask : st.tasks[c]? = some ⟨r, p⟩) : r.passes p = true := by
  refine hreach.of_phases (I := fun r p => r.passes p = true) ?_ ?_ ?_ htask
  · intro r
    cases r <;> rfl
  · intro st st' c r p p' hlook _
    cases hlook with
    | unmappedAll => exact Request.passes_sweep _
    | listed => exact Request.passes_count 0 _
    | _ => rfl
  · intro timeout st st' c r p p' hturn _
    cases hturn with
    | @alive _ use | @stored _ use => cases use <;> rfl
    | sweptEmpty | sweepClosed => exact Request.passes_sweep _
    | counted => exact Request.passes_count _ _
    | _ => rfl

/-! ## Waiting for another call -/

/-- Whether a task waits for another one: it wants a lock that the other has. -/
inductive State.WaitsFor (st : State) (c d : TaskId) : Prop where
  | table {r : Request} {p : Phase} (htask : st.tasks[c]? = some ⟨r, p⟩)
    (hwants : p.wantsTable = true) (hholder : st.table.holder = some d) (hne : d ≠ c)
  | slot {r : Request} {p : Phase} {s : SlotId} (htask : st.tasks[c]? = some ⟨r, p⟩)
    (hwants : p.wants? = some s) (hholder : (st.table.slot s).holder = some d) (hne : d ≠ c)

/-- Whether the locks that a task in a phase wants are free, or its own. -/
structure State.Unhindered (st : State) (c : TaskId) (p : Phase) : Prop where
  table : p.wantsTable = true → ∀ d, st.table.holder = some d → d = c
  slot : ∀ s, p.wants? = some s → ∀ d, (st.table.slot s).holder = some d → d = c

/-- A task waits for nobody just where it is unhindered. -/
theorem State.unhindered_iff {st : State} {c : TaskId} {r : Request} {p : Phase}
    (htask : st.tasks[c]? = some ⟨r, p⟩) :
    st.Unhindered c p ↔ ∀ d, ¬ st.WaitsFor c d := by
  constructor
  · intro hfree d hwaits
    cases hwaits with
    | table htask' hwants hholder hne =>
      cases htask.symm.trans htask'
      exact hne (hfree.table hwants d hholder)
    | slot htask' hwants hholder hne =>
      cases htask.symm.trans htask'
      exact hne (hfree.slot _ hwants d hholder)
  · intro hfree
    constructor
    · intro hwants d hholder
      by_contra hne
      exact hfree d (.table htask hwants hholder hne)
    · intro s hwants d hholder
      by_contra hne
      exact hfree d (.slot htask hwants hholder hne)

namespace Locks

variable {st : State} {c d : TaskId} {r : Request} {p : Phase}

/-- Who has the lock of the table waits for nobody. -/
theorem not_waitsFor_of_table (h : Locks st) (hholder : st.table.holder = some c) (d : TaskId) :
    ¬ st.WaitsFor c d := by
  obtain ⟨r, p, htask, hwants⟩ := h.table hholder
  refine (State.unhindered_iff htask).1 ⟨?_, ?_⟩ d
  · exact fun _ e he => Option.some.inj (he.symm.trans hholder)
  · intro s hs
    simp [Phase.wants?_eq_none_of_wantsTable hwants] at hs

/-- A call that waits for no slot waits for nobody, or for one that waits for nobody. -/
theorem exists_free_of_wants? (h : Locks st) (htask : st.tasks[c]? = some ⟨r, p⟩)
    (hover : p.isOver = false)
    (hslot : ∀ s, p.wants? = some s → ∀ d, (st.table.slot s).holder = some d → d = c) :
    ∃ d r' q, Relation.ReflTransGen st.WaitsFor c d ∧ st.tasks[d]? = some ⟨r', q⟩ ∧
      q.isOver = false ∧ ∀ e, ¬ st.WaitsFor d e := by
  by_cases hwaits : ∃ d, st.WaitsFor c d
  · -- it can only be the holder of the table
    obtain ⟨d, hwaits⟩ := hwaits
    cases hwaits with
    | table htask' hwants hholder hne =>
      obtain ⟨r', q, hd, hwants'⟩ := h.table hholder
      exact ⟨d, r', q, .single (.table htask' hwants hholder hne), hd,
        Phase.isOver_of_wantsTable hwants', h.not_waitsFor_of_table hholder⟩
    | slot htask' hwants hholder hne =>
      cases htask.symm.trans htask'
      exact absurd (hslot _ hwants d hholder) hne
  · exact ⟨c, r, p, .refl, htask, hover, not_exists.1 hwaits⟩

/-- Whoever waits, waits in the end for a call in progress that waits for nobody. -/
theorem exists_free (h : Locks st) (htask : st.tasks[c]? = some ⟨r, p⟩)
    (hover : p.isOver = false) :
    ∃ d r' q, Relation.ReflTransGen st.WaitsFor c d ∧ st.tasks[d]? = some ⟨r', q⟩ ∧
      q.isOver = false ∧ ∀ e, ¬ st.WaitsFor d e := by
  by_cases hslot : ∀ s, p.wants? = some s → ∀ d, (st.table.slot s).holder = some d → d = c
  · exact h.exists_free_of_wants? htask hover hslot
  · push Not at hslot
    obtain ⟨s, hwants, d, hholder, hne⟩ := hslot
    -- the holder of the slot has it or has come to it, and waits for no slot
    obtain ⟨r', q, htask', hdeals⟩ := h.deals hholder
    have hslot' : ∀ s', q.wants? = some s' → ∀ e, (st.table.slot s').holder = some e → e = d := by
      intro s' hs' e he
      have hs : s' = s := Option.some.inj ((Phase.slot?_of_wants? hs').symm.trans hdeals)
      exact Option.some.inj (he.symm.trans (hs ▸ hholder))
    obtain ⟨e, r'', q', hchain, hfree⟩ :=
      h.exists_free_of_wants? htask' (Phase.isOver_of_slot? hdeals) hslot'
    exact ⟨e, r'', q', .head (.slot htask hwants hholder hne) hchain, hfree⟩

end Locks

/-! ## Going on -/

namespace State

variable {st : State} {c : TaskId} {r : Request} {p : Phase}

theorem exists_withTable {look : State → State}
    (hfree : ∀ d, st.table.holder = some d → d = c) : ∃ st', st.withTable c look = some st' := by
  cases hholder : st.table.holder with
  | none => exact ⟨_, by rw [withTable, hholder]⟩
  | some d =>
    have hd := hfree d hholder
    exact ⟨_, by rw [withTable, hholder]; exact if_pos hd⟩

theorem exists_withSlot {s : SlotId} {next : State → State}
    (hfree : ∀ d, (st.table.slot s).holder = some d → d = c) :
    ∃ st', st.withSlot c s next = some st' := by
  cases hholder : (st.table.slot s).holder with
  | none => exact ⟨_, by rw [withSlot, hholder]⟩
  | some d =>
    have hd := hfree d hholder
    exact ⟨_, by rw [withSlot, hholder]; exact if_pos hd⟩

theorem exists_stepAcquire {target : String} {use : Use} {answer : Answer} {timeout : Nat}
    (hpasses : (Request.acquire target use).passes p = true) (hfree : st.Unhindered c p)
    (hheeds : p.heeds answer = true) :
    ∃ st', st.stepAcquire timeout target use c p answer = some st' := by
  -- the lock that a phase waits for is free, and a phase that waits for the store heeds its answer
  cases p with
  | finding | checking | evicting =>
    cases answer <;> cases hheeds
    simp only [stepAcquire]
    exact exists_withTable (hfree.table rfl)
  | entering s =>
    cases answer <;> cases hheeds
    simp only [stepAcquire]
    exact exists_withSlot (hfree.slot s rfl)
  | probing =>
    cases answer with
    | alive b => cases b <;> exact ⟨_, rfl⟩
    | _ => cases hheeds
  | resolving =>
    cases answer with
    | resolved descriptor =>
      cases descriptor with
      | none => exact ⟨_, rfl⟩
      | some descriptor =>
        simp only [stepAcquire]
        split <;> exact ⟨_, rfl⟩
    | _ => cases hheeds
  | leaving s reply =>
    cases answer <;> cases hheeds
    cases reply <;> exact ⟨_, rfl⟩
  | discarding =>
    cases answer with
    | closed => exact ⟨_, rfl⟩
    | _ => cases hheeds
  | connecting =>
    cases answer with
    | connected | refused | timedOut => exact ⟨_, rfl⟩
    | _ => cases hheeds
  | storing =>
    cases answer with
    | proceed => exact ⟨_, rfl⟩
    | _ => cases hheeds
  | finished | «using» => cases answer <;> cases hheeds
  | _ => cases hpasses

theorem exists_stepClose {target : String} {answer : Answer}
    (hpasses : (Request.close target).passes p = true) (hfree : st.Unhindered c p)
    (hheeds : p.heeds answer = true) : ∃ st', st.stepClose target c p answer = some st' := by
  cases p with
  | unmapping =>
    cases answer <;> cases hheeds
    simp only [stepClose]
    exact exists_withTable (hfree.table rfl)
  | emptying s =>
    cases answer <;> cases hheeds
    simp only [stepClose]
    exact exists_withSlot (hfree.slot s rfl)
  | closing =>
    cases answer with
    | closed => exact ⟨_, rfl⟩
    | _ => cases hheeds
  | finished => cases answer <;> cases hheeds
  | _ => cases hpasses

theorem exists_stepCloseAll {answer : Answer} (hpasses : Request.closeAll.passes p = true)
    (hfree : st.Unhindered c p) (hheeds : p.heeds answer = true) :
    ∃ st', st.stepCloseAll c p answer = some st' := by
  cases p with
  | unmappingAll =>
    cases answer <;> cases hheeds
    simp only [stepCloseAll, order?_proceed, Option.bind_eq_bind, Option.bind_some]
    exact exists_withTable (hfree.table rfl)
  | sweeping pending =>
    cases pending with
    | nil => cases hpasses
    | cons s pending =>
      cases answer <;> cases hheeds
      simp only [stepCloseAll]
      exact exists_withSlot (hfree.slot s rfl)
  | sweepClosing =>
    cases answer with
    | closed => exact ⟨_, rfl⟩
    | _ => cases hheeds
  | finished => cases answer <;> cases hheeds
  | _ => cases hpasses

theorem exists_stepContains {target : String} {answer : Answer}
    (hpasses : (Request.contains target).passes p = true) (hfree : st.Unhindered c p)
    (hheeds : p.heeds answer = true) : ∃ st', st.stepContains target c p answer = some st' := by
  cases p with
  | looking =>
    cases answer <;> cases hheeds
    simp only [stepContains]
    exact exists_withTable (hfree.table rfl)
  | peeking s =>
    cases answer <;> cases hheeds
    simp only [stepContains]
    exact exists_withSlot (hfree.slot s rfl)
  | finished => cases answer <;> cases hheeds
  | _ => cases hpasses

theorem exists_stepCount {answer : Answer} (hpasses : Request.count.passes p = true)
    (hfree : st.Unhindered c p) (hheeds : p.heeds answer = true) :
    ∃ st', st.stepCount c p answer = some st' := by
  cases p with
  | listing =>
    cases answer <;> cases hheeds
    simp only [stepCount, order?_proceed, Option.bind_eq_bind, Option.bind_some]
    exact exists_withTable (hfree.table rfl)
  | counting pending found =>
    cases pending with
    | nil => cases hpasses
    | cons s pending =>
      cases answer <;> cases hheeds
      simp only [stepCount]
      exact exists_withSlot (hfree.slot s rfl)
  | finished => cases answer <;> cases hheeds
  | _ => cases hpasses

/-- A call that waits for nobody takes a step, with any answer to what it waits for. -/
theorem exists_step (htask : st.tasks[c]? = some ⟨r, p⟩) (hpasses : r.passes p = true)
    (hfree : ∀ d, ¬ st.WaitsFor c d) {answer : Answer} (hheeds : p.heeds answer = true)
    (timeout : Nat) : ∃ st', st.step? timeout c answer = some st' := by
  have hlocks := (unhindered_iff htask).2 hfree
  simp only [step?, htask, Option.bind_eq_bind, Option.bind_some]
  cases r with
  | acquire target use => exact exists_stepAcquire hpasses hlocks hheeds
  | close target => exact exists_stepClose hpasses hlocks hheeds
  | closeAll => exact exists_stepCloseAll hpasses hlocks hheeds
  | contains target => exact exists_stepContains hpasses hlocks hheeds
  | count => exact exists_stepCount hpasses hlocks hheeds

end State

/-- A call in progress that does not wait for the store goes on without an answer. -/
theorem Phase.heeds_proceed {p : Phase} (hover : p.isOver = false) (hstore : p.awaitsStore = false) :
    p.heeds .proceed = true := by
  cases p <;> simp_all [heeds, isOver, awaitsStore]

/-- In every state that calls of the cache can come to, in any order of their steps: whoever has not
    returned waits, if for anyone, in the end for a call in progress that waits for nobody, and that
    call can take a step, or it waits for the store and takes one with whatever the store answers.
    Who has the lock of the table waits for nobody and is in line for no slot. -/
theorem Reachable.no_deadlock {st : State} (hreach : Reachable st) (timeout : Nat) :
    (∀ c task, st.tasks[c]? = some task → task.phase.isOver = false →
      ∃ d task', Relation.ReflTransGen st.WaitsFor c d ∧ st.tasks[d]? = some task' ∧
        task'.phase.isOver = false ∧ (∀ e, ¬ st.WaitsFor d e) ∧
        ((∃ st', st.step? timeout d .proceed = some st') ∨
          task'.phase.awaitsStore = true ∧ ∀ answer, task'.phase.heeds answer = true →
            ∃ st', st.step? timeout d answer = some st')) ∧
    ∀ c, st.table.holder = some c →
      (∀ d, ¬ st.WaitsFor c d) ∧ ∀ s, c ∉ (st.table.slot s).waiting := by
  refine ⟨fun c ⟨r, p⟩ htask hover => ?_, fun c hholder => ⟨?_, fun s hmem => ?_⟩⟩
  · obtain ⟨d, r', q, hchain, htask', hover', hfree⟩ := hreach.locks.exists_free htask hover
    refine ⟨d, ⟨r', q⟩, hchain, htask', hover', hfree, ?_⟩
    have hstep {answer : Answer} (hheeds : q.heeds answer = true) :=
      State.exists_step htask' (hreach.passes htask') hfree hheeds timeout
    cases hstore : q.awaitsStore with
    | true => exact .inr ⟨rfl, fun answer => hstep⟩
    | false => exact .inl (hstep (Phase.heeds_proceed hover' hstore))
  · exact hreach.locks.not_waitsFor_of_table hholder
  · obtain ⟨r, p, htask, hwants⟩ := hreach.locks.table hholder
    obtain ⟨r', p', htask', hslot⟩ := hreach.locks.waits hmem
    cases htask.symm.trans htask'
    simp [Phase.wants?_eq_none_of_wantsTable hwants] at hslot

/-- A cache with three calls at once: the first has the slot of its target and wants the table, the
    second has the lock of the table, and the third is in line for the slot. -/
def State.contended : State where
  table := { mapped := [("a", 0)], slots := [{ holder := some 0, waiting := [2] }], holder := some 1 }
  tasks := [⟨.acquire "a" .keep, .checking 0⟩, ⟨.acquire "b" .keep, .finding⟩,
    ⟨.acquire "a" .keep, .entering 0⟩]

theorem reachable_contended : Reachable .contended := by
  have hsteps : (((State.submit {} (.acquire "a" .keep)).submit (.acquire "b" .keep)).submit
      (.acquire "a" .keep)).steps? 100 (List.replicate 4 (0, .proceed) ++
        List.replicate 3 (2, .proceed) ++ [(1, .proceed)]) = some .contended := rfl
  exact ((((Run.refl {}).submit _).submit _).submit _).trans (.of_steps hsteps)

theorem no_deadlock_contended :
    State.contended.WaitsFor 2 0 ∧ State.contended.WaitsFor 0 1 ∧
      (∃ d task, Relation.ReflTransGen State.contended.WaitsFor 2 d ∧
        State.contended.tasks[d]? = some task ∧ task.phase.isOver = false ∧
        (∀ e, ¬ State.contended.WaitsFor d e) ∧
        ((∃ st', State.contended.step? 100 d .proceed = some st') ∨
          task.phase.awaitsStore = true ∧ ∀ answer, task.phase.heeds answer = true →
            ∃ st', State.contended.step? 100 d answer = some st')) ∧
      ∀ s, 1 ∉ (State.contended.table.slot s).waiting := by
  obtain ⟨hprogress, htable⟩ := reachable_contended.no_deadlock 100
  refine ⟨?_, ?_, hprogress 2 _ rfl rfl, (htable 1 rfl).2⟩
  · exact .slot (s := 0) rfl rfl rfl (by decide)
  · exact .table rfl rfl rfl (by decide)

end ShellQuery.Cache
