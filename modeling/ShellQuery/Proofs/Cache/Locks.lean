/-
  ShellQuery.Proofs.Cache.Locks

  Runs of the cache, and who has which lock in them. A slot has one holder, which deals with it,
  and the tasks that wait for it want it and are in line once (`Locks`). The invariant is carried
  by a move's phases alone: a task keeps what it deals with or gives it up, and a lock that is
  given up goes to the next in line.
-/
import ShellQuery.Proofs.Cache.Move

namespace ShellQuery.Cache

/-! ## Runs -/

/-- What calls and steps of the tasks, in any order, make of a state. -/
inductive Run : State → State → Prop where
  | refl (st : State) : Run st st
  | submit {st st' : State} (h : Run st st') (r : Request) : Run st (st'.submit r)
  | step {st st' st'' : State} {timeout : Nat} {c : TaskId} {answer : Answer} (h : Run st st')
    (hstep : st'.step? timeout c answer = some st'') : Run st st''

/-- Whether a state comes about in some order of calls and steps. -/
def Reachable (st : State) : Prop :=
  Run {} st

theorem Run.trans {st₁ st₂ st₃ : State} (h : Run st₁ st₂) (h' : Run st₂ st₃) : Run st₁ st₃ := by
  induction h' with
  | refl => exact h
  | submit _ r ih => exact .submit ih r
  | step _ hstep ih => exact .step ih hstep

/-- The state after some steps, each of a task with what lets it go on, if all are possible. -/
def State.steps? (timeout : Nat) (st : State) : List (TaskId × Answer) → Option State
  | [] => some st
  | (c, answer) :: moves => (st.step? timeout c answer).bind fun st' => st'.steps? timeout moves

theorem Run.of_steps {timeout : Nat} {st st' : State} {moves : List (TaskId × Answer)}
    (h : st.steps? timeout moves = some st') : Run st st' := by
  induction moves generalizing st with
  | nil =>
    cases h
    exact .refl _
  | cons move moves ih =>
    obtain ⟨c, answer⟩ := move
    obtain ⟨st₁, hstep, hrest⟩ := Option.bind_eq_some_iff.1 h
    exact (Run.step (.refl _) hstep).trans (ih hrest)

/-- The steps in which a task gets the lock of a new slot for its target and asks the store for a
    connection. -/
def State.asking (c : TaskId) (descriptor : Target) : List (TaskId × Answer) :=
  List.replicate 6 (c, .proceed) ++ [(c, .resolved (some descriptor))]

/-! ## Tasks after a step -/

section
variable {tasks tasks' : List Task} {c d : TaskId} {r : Request} {p p' : Phase}

/-- The tasks after one of them has gone on. -/
theorem getElem?_of_enter (htask : tasks[c]? = some ⟨r, p⟩)
    (htasks : tasks' = tasks.modify c fun t => { t with phase := p' }) :
    tasks'[d]? = if d = c then some ⟨r, p'⟩ else tasks[d]? := by
  subst htasks
  split
  · rename_i hd
    subst hd
    simp [htask]
  · rename_i hd
    simp [Ne.symm hd]

theorem getElem?_self_of_enter (htask : tasks[c]? = some ⟨r, p⟩)
    (htasks : tasks' = tasks.modify c fun t => { t with phase := p' }) :
    tasks'[c]? = some ⟨r, p'⟩ := by
  simp [getElem?_of_enter htask htasks]

theorem getElem?_of_enter_of_ne (htask : tasks[c]? = some ⟨r, p⟩)
    (htasks : tasks' = tasks.modify c fun t => { t with phase := p' }) (hne : d ≠ c) :
    tasks'[d]? = tasks[d]? := by
  simp [getElem?_of_enter htask htasks, hne]

end

theorem Move.exists_phase {timeout : Nat} {st st' : State} {c d : TaskId} {r s : Request}
    {p q : Phase} (h : Move timeout st c r p st') (htask : st.tasks[c]? = some ⟨r, p⟩)
    (hd : st.tasks[d]? = some ⟨s, q⟩) : ∃ q', st'.tasks[d]? = some ⟨s, q'⟩ := by
  have henter : ∀ {p' : Phase} {tasks : List Task},
      tasks = st.tasks.modify c (fun t => { t with phase := p' }) →
      ∃ q', tasks[d]? = some ⟨s, q'⟩ := by
    intro p' tasks htasks
    rw [getElem?_of_enter htask htasks]
    split
    · rename_i hdc
      rw [hdc, htask] at hd
      cases hd
      exact ⟨p', rfl⟩
    · exact ⟨q, hd⟩
  cases h with
  | lockTable | lock | queue => exact ⟨q, hd⟩
  | look hholder hlook => exact henter hlook.tasks
  | turn hturn => exact henter hturn.tasks

/-- A task that has arrived stays, whatever goes on, and so does its request. -/
theorem Run.exists_phase {st st' : State} {c : TaskId} {r : Request} {p : Phase} (h : Run st st')
    (htask : st.tasks[c]? = some ⟨r, p⟩) : ∃ p', st'.tasks[c]? = some ⟨r, p'⟩ := by
  induction h with
  | refl => exact ⟨p, htask⟩
  | submit _ s ih =>
    obtain ⟨p', hp'⟩ := ih
    exact ⟨p', (List.getElem?_append_left (List.getElem?_eq_some_iff.1 hp').1).trans hp'⟩
  | step _ hstep ih =>
    obtain ⟨p', hp'⟩ := ih
    obtain ⟨s, q, hmoved, hmove⟩ := move_of_step hstep
    exact hmove.exists_phase hmoved hp'

/-! ## The lock of one slot -/

namespace Slot

/-- The tasks in line for a slot wait for its holder, and each is in line once. -/
structure Orderly (s : Slot) : Prop where
  held : s.waiting ≠ [] → s.holder ≠ none
  once : s.waiting.Nodup
  behind : ∀ d ∈ s.waiting, s.holder ≠ some d

theorem Orderly.queue {s : Slot} {c d : TaskId} (h : s.Orderly) (hheld : s.holder = some d)
    (hne : d ≠ c) (hnew : c ∉ s.waiting) :
    ({ s with waiting := s.waiting ++ [c] } : Slot).Orderly where
  held _ := by simp [hheld]
  once := by
    refine List.nodup_append.2 ⟨h.once, by simp, ?_⟩
    intro a ha b hb
    have hb : b = c := by simpa using hb
    exact fun hab => hnew (hb ▸ hab ▸ ha)
  behind e he := by
    rcases List.mem_append.1 he with he | he
    · exact h.behind e he
    · have he : e = c := by simpa using he
      simp [hheld, he, hne]

theorem Orderly.lock {s : Slot} (h : s.Orderly) (hfree : s.holder = none) (c : TaskId) :
    ({ s with holder := some c } : Slot).Orderly := by
  have hwaiting : s.waiting = [] := by
    by_cases hw : s.waiting = []
    · exact hw
    · exact absurd hfree (h.held hw)
  constructor <;> simp [hwaiting]

theorem Orderly.release {s : Slot} (h : s.Orderly) : s.release.Orderly := by
  have honce := h.once
  cases hw : s.waiting with
  | nil => constructor <;> simp [Slot.release, hw]
  | cons next rest =>
    rw [hw] at honce
    obtain ⟨hnext, hrest⟩ := List.nodup_cons.1 honce
    constructor
    · simp [Slot.release, hw]
    · simpa [Slot.release, hw] using hrest
    · intro d hd
      simp only [Slot.release, hw] at hd ⊢
      exact fun heq => hnext (Option.some.inj heq ▸ hd)

/-- The lock goes to a task in line. -/
theorem mem_waiting_of_release {s : Slot} {d : TaskId} (h : s.release.holder = some d) :
    d ∈ s.waiting := by
  cases hw : s.waiting with
  | nil => simp [release, hw] at h
  | cons next rest =>
    have hd : next = d := by simpa [release, hw] using h
    simp [hd]

theorem mem_waiting_of_mem_release {s : Slot} {d : TaskId} (h : d ∈ s.release.waiting) :
    d ∈ s.waiting := by
  cases hw : s.waiting with
  | nil => simp [release, hw] at h
  | cons next rest => exact List.mem_cons_of_mem _ (by simpa [release, hw] using h)

@[simp] theorem entry_release (s : Slot) : s.release.entry = s.entry := by
  cases hw : s.waiting <;> simp [release, hw]

theorem Orderly.congr {a b : Slot} (h : b.Orderly) (hab : a.SameLock b) : a.Orderly := by
  obtain ⟨hholder, hwaiting⟩ := hab
  exact ⟨by simpa [hholder, hwaiting] using h.held, by simpa [hwaiting] using h.once,
    by simpa [hholder, hwaiting] using h.behind⟩

end Slot

/-! ## The locks of a state -/

/-- Who has a lock deals with what it guards, and who is in line for a slot wants it. -/
structure Locks (st : State) : Prop where
  table : ∀ {d}, st.table.holder = some d →
    ∃ r p, st.tasks[d]? = some ⟨r, p⟩ ∧ p.wantsTable = true
  deals : ∀ {s d}, (st.table.slot s).holder = some d →
    ∃ r p, st.tasks[d]? = some ⟨r, p⟩ ∧ p.slot? = some s
  holds : ∀ {s d r p}, st.tasks[d]? = some ⟨r, p⟩ → p.holds? = some s →
    (st.table.slot s).holder = some d
  waits : ∀ {s d}, d ∈ (st.table.slot s).waiting →
    ∃ r p, st.tasks[d]? = some ⟨r, p⟩ ∧ p.wants? = some s
  orderly : ∀ s, (st.table.slot s).Orderly

namespace Phase

theorem slot?_of_wants? {p : Phase} {s : SlotId} (h : p.wants? = some s) : p.slot? = some s := by
  simp [slot?, h]

theorem holds?_eq_none_of_wants? {p : Phase} {s : SlotId} (h : p.wants? = some s) :
    p.holds? = none := by
  cases p <;> simp_all [wants?, holds?]

theorem slot?_of_holds? {p : Phase} {s : SlotId} (h : p.holds? = some s) : p.slot? = some s := by
  cases hw : p.wants? with
  | none => simp [slot?, hw, h]
  | some s' => simp [holds?_eq_none_of_wants? hw] at h

/-- A task that wants the table is not on its way to a slot. -/
theorem wants?_eq_none_of_wantsTable {p : Phase} (h : p.wantsTable = true) : p.wants? = none := by
  cases p <;> simp_all [wants?, wantsTable]

end Phase

namespace Locks

variable {st st' : State} {c : TaskId} {r : Request} {p p' : Phase} {s : SlotId}

/-- A task that has come to its slot has the lock of that slot and no other. -/
theorem holder_iff (h : Locks st) (htask : st.tasks[c]? = some ⟨r, p⟩)
    (harrived : st.Arrived c p) : (st.table.slot s).holder = some c ↔ p.slot? = some s := by
  constructor
  · intro hholder
    obtain ⟨r', p', htask', hslot⟩ := h.deals hholder
    have heq : (⟨r, p⟩ : Task) = ⟨r', p'⟩ := Option.some.inj (htask ▸ htask')
    cases heq
    exact hslot
  · intro hslot
    cases hw : p.wants? with
    | some s' =>
      have hs : s' = s := by simpa [Phase.slot?, hw] using hslot
      exact hs ▸ harrived s' hw
    | none => exact h.holds htask (by simpa [Phase.slot?, hw] using hslot)

/-- A task that has come to its slot is in no line. -/
theorem not_waiting (h : Locks st) (htask : st.tasks[c]? = some ⟨r, p⟩)
    (harrived : st.Arrived c p) : c ∉ (st.table.slot s).waiting := by
  intro hmem
  obtain ⟨r', p', htask', hwants⟩ := h.waits hmem
  have heq : (⟨r, p⟩ : Task) = ⟨r', p'⟩ := Option.some.inj (htask ▸ htask')
  cases heq
  exact (h.orderly s).behind c hmem (harrived s hwants)

/-- No two tasks have one slot. -/
theorem holds_unique (h : Locks st) {d : TaskId} {r' : Request}
    (htask : st.tasks[c]? = some ⟨r, p⟩) (harrived : st.Arrived c p) (hslot : p.slot? = some s)
    (htask' : st.tasks[d]? = some ⟨r', p'⟩) (hholds : p'.holds? = some s) : d = c := by
  have hc := (h.holder_iff htask harrived).2 hslot
  have hd := h.holds htask' hholds
  exact Option.some.inj (hd.symm.trans hc)

/-! ## Steps -/

theorem submit (h : Locks st) (r : Request) : Locks (st.submit r) := by
  have hold {d : TaskId} {task : Task} (htask : st.tasks[d]? = some task) :
      (st.submit r).tasks[d]? = some task := by
    obtain ⟨hd, -⟩ := List.getElem?_eq_some_iff.1 htask
    simpa [List.getElem?_append_left hd] using htask
  refine ⟨fun hd => ?_, fun hd => ?_, fun {s d r' p'} htask hholds => ?_, fun hd => ?_, h.orderly⟩
  · obtain ⟨r', p', htask, hwants⟩ := h.table hd
    exact ⟨r', p', hold htask, hwants⟩
  · obtain ⟨r', p', htask, hslot⟩ := h.deals hd
    exact ⟨r', p', hold htask, hslot⟩
  · rcases Nat.lt_or_ge d st.tasks.length with hd | hd
    · exact h.holds (by simpa [List.getElem?_append_left hd] using htask) hholds
    · -- the new task has no slot yet
      obtain ⟨-, -, rfl⟩ : d - st.tasks.length = 0 ∧ r = r' ∧ r.begin = p' := by
        simpa [List.getElem?_append_right hd, List.getElem?_singleton] using htask
      cases r <;> cases hholds
  · obtain ⟨r', p', htask, hwants⟩ := h.waits hd
    exact ⟨r', p', hold htask, hwants⟩

/-- The lock of the table is taken. -/
theorem lockTable (h : Locks st) (htask : st.tasks[c]? = some ⟨r, p⟩)
    (hwants : p.wantsTable = true) :
    Locks { st with table := { st.table with holder := some c } } where
  table hd := Option.some.inj hd ▸ ⟨r, p, htask, hwants⟩
  deals hd := h.deals hd
  holds htask' hholds := h.holds htask' hholds
  waits hd := h.waits hd
  orderly := h.orderly

/-- A change of one slot's lock that leaves what was held and what was in line. -/
theorem modifySlot {f : Slot → Slot} (h : Locks st) (htask : st.tasks[c]? = some ⟨r, p⟩)
    (hwants : p.wants? = some s)
    (hholder : ∀ {d}, (f (st.table.slot s)).holder = some d →
      d = c ∨ (st.table.slot s).holder = some d)
    (hkeeps : ∀ {d}, (st.table.slot s).holder = some d → (f (st.table.slot s)).holder = some d)
    (hwaiting : ∀ {d}, d ∈ (f (st.table.slot s)).waiting → d = c ∨ d ∈ (st.table.slot s).waiting)
    (horderly : (f (st.table.slot s)).Orderly) : Locks (st.modifySlot s f) := by
  -- a slot that does not exist is not changed either
  rcases Nat.lt_or_ge s st.table.slots.length with hlt | hge
  · -- field by field, first for the slot that changes and then for the others
    have hself := Table.slot_modifySlot_self (f := f) hlt
    have hother {s' : SlotId} (hs : s ≠ s') : (st.table.modifySlot s f).slot s' = st.table.slot s' :=
      Table.slot_modifySlot_of_ne hs
    refine ⟨h.table, fun {s' d} hd => ?_, fun {s' d r' p'} htask' hholds => ?_,
      fun {s' d} hd => ?_, fun s' => ?_⟩ <;> simp only [State.modifySlot_table] at *
    · by_cases hs : s = s'
      · subst hs
        rcases hholder (hself ▸ hd) with rfl | hd
        · exact ⟨r, p, htask, Phase.slot?_of_wants? hwants⟩
        · exact h.deals hd
      · exact h.deals (hother hs ▸ hd)
    · by_cases hs : s = s'
      · subst hs
        exact hself ▸ hkeeps (h.holds htask' hholds)
      · exact hother hs ▸ h.holds htask' hholds
    · by_cases hs : s = s'
      · subst hs
        rcases hwaiting (hself ▸ hd) with rfl | hd
        · exact ⟨r, p, htask, hwants⟩
        · exact h.waits hd
      · exact h.waits (hother hs ▸ hd)
    · by_cases hs : s = s'
      · subst hs
        exact hself ▸ horderly
      · exact hother hs ▸ h.orderly s'
  · have hsame : st.modifySlot s f = st := by simp [State.modifySlot, Table.modifySlot_of_le hge]
    rwa [hsame]

/-- A task goes on and keeps the slot it deals with, if any. -/
theorem keep (h : Locks st) (htask : st.tasks[c]? = some ⟨r, p⟩) (harrived : st.Arrived c p)
    (htasks : st'.tasks = st.tasks.modify c fun t => { t with phase := p' })
    (hslots : ∀ s, (st'.table.slot s).SameLock (st.table.slot s))
    (htable : ∀ {d}, st'.table.holder = some d → d ≠ c ∧ st.table.holder = some d)
    (hkeep : p'.holds? = p.slot?) : Locks st' := by
  refine ⟨fun hd => ?_, fun {s d} hd => ?_, fun {s d r' q} htask' hholds => ?_,
    fun {s d} hd => ?_, fun s => (h.orderly s).congr (hslots s)⟩
  · obtain ⟨hne, hd⟩ := htable hd
    obtain ⟨r', q, htask', hwants⟩ := h.table hd
    exact ⟨r', q, (getElem?_of_enter_of_ne htask htasks hne).trans htask', hwants⟩
  · rw [(hslots s).holder] at hd
    by_cases hdc : d = c
    · -- the task itself: it held the slot before, since it has arrived at it
      subst hdc
      have hslot := (h.holder_iff htask harrived).1 hd
      exact ⟨r, p', getElem?_self_of_enter htask htasks,
        Phase.slot?_of_holds? (hkeep.trans hslot)⟩
    · obtain ⟨r', q, htask', hslot⟩ := h.deals hd
      exact ⟨r', q, (getElem?_of_enter_of_ne htask htasks hdc).trans htask', hslot⟩
  · rw [(hslots s).holder]
    by_cases hdc : d = c
    · subst hdc
      cases (getElem?_self_of_enter htask htasks).symm.trans htask'
      exact (h.holder_iff htask harrived).2 (hkeep.symm.trans hholds)
    · exact h.holds ((getElem?_of_enter_of_ne htask htasks hdc).symm.trans htask') hholds
  · rw [(hslots s).waiting] at hd
    -- who has arrived is in no line
    have hdc : d ≠ c := fun hdc => h.not_waiting htask harrived (hdc ▸ hd)
    obtain ⟨r', q, htask', hwants⟩ := h.waits hd
    exact ⟨r', q, (getElem?_of_enter_of_ne htask htasks hdc).trans htask', hwants⟩

/-- A task goes on and gives up the slot it deals with. -/
theorem release (h : Locks st) (htask : st.tasks[c]? = some ⟨r, p⟩) (harrived : st.Arrived c p)
    (hslot : p.slot? = some s)
    (htasks : st'.tasks = st.tasks.modify c fun t => { t with phase := p' })
    (hself : (st'.table.slot s).SameLock (st.table.slot s).release)
    (hslots : ∀ s', s ≠ s' → (st'.table.slot s').SameLock (st.table.slot s'))
    (htable : ∀ {d}, st'.table.holder = some d → d ≠ c ∧ st.table.holder = some d)
    (hholds : p'.holds? = none) : Locks st' := by
  refine ⟨fun hd => ?_, fun {s' d} hd => ?_, fun {s' d r' q} htask' hholds' => ?_,
    fun {s' d} hd => ?_, fun s' => ?_⟩
  · obtain ⟨hne, hd⟩ := htable hd
    obtain ⟨r', q, htask', hwants⟩ := h.table hd
    exact ⟨r', q, (getElem?_of_enter_of_ne htask htasks hne).trans htask', hwants⟩
  · by_cases hs : s = s'
    · -- the next in line has the slot
      subst hs
      rw [hself.holder] at hd
      -- it waited for the slot, so it is not the task that gives it up
      have hmem := Slot.mem_waiting_of_release hd
      have hdc : d ≠ c := fun hdc => h.not_waiting htask harrived (hdc ▸ hmem)
      obtain ⟨r', q, htask', hwants⟩ := h.waits hmem
      exact ⟨r', q, (getElem?_of_enter_of_ne htask htasks hdc).trans htask',
        Phase.slot?_of_wants? hwants⟩
    · rw [(hslots s' hs).holder] at hd
      have hdc : d ≠ c := by
        intro hdc
        have hslot' := (h.holder_iff htask harrived).1 (hdc ▸ hd)
        exact hs (Option.some.inj (hslot.symm.trans hslot'))
      obtain ⟨r', q, htask', hslot'⟩ := h.deals hd
      exact ⟨r', q, (getElem?_of_enter_of_ne htask htasks hdc).trans htask', hslot'⟩
  · -- the task holds nothing now, so it is another one that holds, and that holds another slot
    have hdc : d ≠ c := by
      intro hdc
      subst hdc
      cases (getElem?_self_of_enter htask htasks).symm.trans htask'
      simp [hholds] at hholds'
    have htask'' := (getElem?_of_enter_of_ne htask htasks hdc).symm.trans htask'
    have hs : s ≠ s' := fun hs =>
      hdc (h.holds_unique htask harrived (hs ▸ hslot) htask'' hholds')
    exact (hslots s' hs).holder.trans (h.holds htask'' hholds')
  · -- a line only gets shorter
    have hmem : d ∈ (st.table.slot s').waiting := by
      by_cases hs : s = s'
      · subst hs
        exact Slot.mem_waiting_of_mem_release (hself.waiting ▸ hd)
      · exact (hslots s' hs).waiting ▸ hd
    have hdc : d ≠ c := fun hdc => h.not_waiting htask harrived (hdc ▸ hmem)
    obtain ⟨r', q, htask', hwants⟩ := h.waits hmem
    exact ⟨r', q, (getElem?_of_enter_of_ne htask htasks hdc).trans htask', hwants⟩
  · by_cases hs : s = s'
    · subst hs
      exact (h.orderly s).release.congr hself
    · exact (h.orderly s').congr (hslots s' hs)

/-- A task that takes a turn does not have the lock of the table. -/
theorem holder_of_turn {timeout : Nat} (h : Locks st) (htask : st.tasks[c]? = some ⟨r, p⟩)
    (hturn : Turn timeout st c r p p' st') {d : TaskId} (hd : st'.table.holder = some d) :
    d ≠ c ∧ st.table.holder = some d := by
  rw [hturn.holder] at hd
  refine ⟨?_, hd⟩
  rintro rfl
  obtain ⟨r', q, htask', hwants⟩ := h.table hd
  cases htask.symm.trans htask'
  simp [hturn.wantsTable] at hwants

theorem move {timeout : Nat} (h : Locks st) (htask : st.tasks[c]? = some ⟨r, p⟩)
    (hmove : Move timeout st c r p st') : Locks st' := by
  cases hmove with
  | lockTable hwants => exact h.lockTable htask hwants
  | @lock s hwants hfree =>
    refine h.modifySlot htask hwants ?_ ?_ .inr ((h.orderly s).lock hfree c)
    · exact fun hd => .inl (Option.some.inj hd).symm
    · simp [hfree]
  | @queue s d hwants hheld hne hnew =>
    refine h.modifySlot htask hwants .inr id ?_ ((h.orderly s).queue hheld hne hnew)
    intro e he
    rcases List.mem_append.1 he with he | he
    · exact .inr he
    · exact .inl (by simpa using he)
  -- a look gives the lock of the table back and leaves the slots alone
  | look hholder hlook =>
    have hwants := Phase.wants?_eq_none_of_wantsTable hlook.wantsTable
    refine h.keep htask (fun s hs => by simp [hwants] at hs) hlook.tasks (fun s => ?_)
      (fun hd => by cases hd) hlook.holds?
    have hslot := hlook.slot s
    exact ⟨congrArg Slot.holder hslot, congrArg Slot.waiting hslot⟩
  | turn hturn =>
    have htable {d : TaskId} := h.holder_of_turn htask hturn (d := d)
    rcases hturn.table_cases with ⟨hsame, hkeep⟩ | ⟨s, f, hslot, hchange, hf⟩
    · -- no slot changes
      exact h.keep htask hturn.arrived hturn.tasks (fun s => hsame ▸ .rfl) htable hkeep
    · -- the change is to the slot that the task has
      have hlt := Table.lt_of_holder ((h.holder_iff htask hturn.arrived).2 hslot)
      have hself : st'.table.slot s = f (st.table.slot s) :=
        hchange ▸ Table.slot_modifySlot_self hlt
      have hother {s' : SlotId} (hs : s ≠ s') : st'.table.slot s' = st.table.slot s' :=
        hchange ▸ Table.slot_modifySlot_of_ne hs
      rcases hf with ⟨hf, hholds⟩ | ⟨hf, hholds⟩
      · refine h.keep htask hturn.arrived hturn.tasks (fun s' => ?_) htable (hholds.trans hslot.symm)
        by_cases hs : s = s'
        · exact hs ▸ hself ▸ hf _
        · exact hother hs ▸ .rfl
      · exact h.release htask hturn.arrived hslot hturn.tasks (hself ▸ hf _)
          (fun s' hs => hother hs ▸ .rfl) htable hholds

end Locks

/-- Nothing has been called yet: no lock is taken. -/
theorem Locks.start : Locks {} := by
  constructor <;> simp [Table.slot]
  constructor <;> simp

theorem Reachable.locks {st : State} (h : Reachable st) : Locks st := by
  induction h with
  | refl => exact .start
  | submit _ r ih => exact ih.submit r
  | step _ hstep ih =>
    obtain ⟨r, p, htask, hmove⟩ := move_of_step hstep
    exact ih.move htask hmove

end ShellQuery.Cache
