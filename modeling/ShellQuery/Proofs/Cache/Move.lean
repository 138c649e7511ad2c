/-
  ShellQuery.Proofs.Cache.Move

  What one step of the cache can do. A task takes a lock or lines up for it (`lockTable`, `lock`,
  `queue`), looks at the table under its lock (`Look`), or does its turn with the slots and the
  store (`Turn`). Every step is one of these (`move_of_step`), so what is said of steps is proved
  over the constructors here and the step function is not opened again.
-/
import ShellQuery.Cache.Step

namespace ShellQuery.Cache

/-! ## Phases -/

namespace Phase

/-- The slot whose lock a task wants. -/
def wants? : Phase → Option SlotId
  | .entering s | .emptying s | .peeking s => some s
  | .sweeping (s :: _) | .counting (s :: _) _ => some s
  | _ => none

/-- The slot whose lock a task has. -/
def holds? : Phase → Option SlotId
  | .checking s | .probing s _ | .discarding s _ | .resolving s | .connecting s _ | .storing s _
  | .evicting s _ | .leaving s _ | .sweepClosing s _ _ => some s
  | _ => none

/-- The slot that a task deals with, whose lock it wants or has. -/
def slot? (p : Phase) : Option SlotId :=
  p.wants? <|> p.holds?

/-- Whether a task wants the lock of the table. -/
def wantsTable : Phase → Bool
  | .finding | .checking _ | .evicting _ _ | .unmapping | .unmappingAll | .looking | .listing =>
    true
  | _ => false

/-- Whether a call has returned: an acquired handle may still be in use. -/
def isOver : Phase → Bool
  | .finished _ | .using _ => true
  | _ => false

/-- How a sweep goes on. -/
def sweep : List SlotId → Phase
  | [] => .finished .closedAll
  | pending => .sweeping pending

/-- How a count goes on. -/
def count (found : Nat) : List SlotId → Phase
  | [] => .finished (.counted found)
  | pending => .counting pending found

end Phase

/-- The phase in which a handle is used. -/
def Use.phase (h : HandleId) : Use → Phase
  | .keep => .finished (.handle h)
  | .run _ _ | .list _ => .using h

/-- The dealings with the store that begin the use of a handle. -/
def Use.events (h : HandleId) : Use → List Event
  | .keep => []
  | .run plan _ => [.run h plan.operation]
  | .list _ => [.listed h]

/-- What a task learns from the store as it leaves a phase for another one. -/
def Phase.learned : Phase → Phase → List Event
  | .probing _ h, .discarding _ _ => [.probed h false]
  | .probing _ h, _ => [.probed h true]
  | _, _ => []

/-- What a task has the store begin as it comes to a phase, or tells it of. -/
def Request.begun (timeout : Nat) : Request → Phase → List Event
  | .acquire target _, .connecting _ descriptor => [.connect target descriptor timeout]
  | .acquire _ _, .storing _ h => [.opened h]
  | .acquire _ use, .using h => use.events h
  | .acquire _ _, .discarding _ h | .close _, .closing h | .closeAll, .sweepClosing _ h _ =>
    [.closed h]
  | _, _ => []

/-- The dealings of a task with the store as it goes from a phase to another one. -/
def dealings (timeout : Nat) (r : Request) (p p' : Phase) : List Event :=
  p.learned p' ++ r.begun timeout p'

/-- What the use of a handle comes to by an answer of the store, if it is one to that use. -/
def Use.outcome? : Use → Answer → Option Reply
  | .run plan _, .ran (.ok v) => some (.value (plan.shape v))
  | .run _ _, .ran (.error message) => some (.failed (.store message))
  | .run _ deadline, .timedOut => some (.failed (.deadlineExceeded deadline))
  | .list _, .listed (.ok names) => some (.collections names)
  | .list _, .listed (.error message) => some (.failed (.store message))
  | .list deadline, .timedOut => some (.failed (.deadlineExceeded deadline))
  | _, _ => none

@[simp] theorem Use.isOver_phase (use : Use) (h : HandleId) : (use.phase h).isOver = true := by
  cases use <;> rfl

@[simp] theorem Use.holds?_phase (use : Use) (h : HandleId) : (use.phase h).holds? = none := by
  cases use <;> rfl

@[simp] theorem Phase.holds?_sweep (pending : List SlotId) : (sweep pending).holds? = none := by
  cases pending <;> rfl

@[simp] theorem Phase.holds?_count (found : Nat) (pending : List SlotId) :
    (count found pending).holds? = none := by
  cases pending <;> rfl

/-! ## Locks of slots -/

/-- Whether two slots have the same lock, whatever they hold. -/
structure Slot.SameLock (a b : Slot) : Prop where
  holder : a.holder = b.holder
  waiting : a.waiting = b.waiting

theorem Slot.SameLock.rfl {a : Slot} : a.SameLock a :=
  ⟨Eq.refl _, Eq.refl _⟩

theorem Slot.sameLock_release {a b : Slot} (h : a.SameLock b) :
    a.release.SameLock b.release := by
  have hwaiting := h.waiting
  cases hw : b.waiting <;> constructor <;> simp [release, hwaiting, hw]

/-! ## What the parts of a step change -/

namespace State

variable (st : State) (c : TaskId) (s : SlotId)

@[simp] theorem enter_table (p : Phase) : (st.enter c p).table = st.table := rfl
@[simp] theorem enter_tasks (p : Phase) :
    (st.enter c p).tasks = st.tasks.modify c fun t => { t with phase := p } := rfl
@[simp] theorem enter_opened (p : Phase) : (st.enter c p).opened = st.opened := rfl
@[simp] theorem enter_events (p : Phase) : (st.enter c p).events = st.events := rfl

@[simp] theorem emit_table (e : Event) : (st.emit c e).table = st.table := rfl
@[simp] theorem emit_tasks (e : Event) : (st.emit c e).tasks = st.tasks := rfl
@[simp] theorem emit_opened (e : Event) : (st.emit c e).opened = st.opened := rfl
@[simp] theorem emit_events (e : Event) : (st.emit c e).events = st.events ++ [(c, e)] := rfl

@[simp] theorem modifySlot_table (f : Slot → Slot) :
    (st.modifySlot s f).table = st.table.modifySlot s f := rfl
@[simp] theorem modifySlot_tasks (f : Slot → Slot) : (st.modifySlot s f).tasks = st.tasks := rfl
@[simp] theorem modifySlot_opened (f : Slot → Slot) : (st.modifySlot s f).opened = st.opened := rfl
@[simp] theorem modifySlot_events (f : Slot → Slot) : (st.modifySlot s f).events = st.events := rfl

@[simp] theorem submit_table (r : Request) : (st.submit r).table = st.table := rfl
@[simp] theorem submit_tasks (r : Request) : (st.submit r).tasks = st.tasks ++ [⟨r, r.begin⟩] := rfl
@[simp] theorem submit_opened (r : Request) : (st.submit r).opened = st.opened := rfl
@[simp] theorem submit_events (r : Request) : (st.submit r).events = st.events := rfl

@[simp] theorem order?_proceed : st.order? .proceed = some (st.table.mapped.map Prod.snd) := rfl

theorem closeHandle_eq (h : HandleId) (p : Phase) :
    st.closeHandle c h p = (st.emit c (.closed h)).enter c p := rfl

theorem sweep_eq (pending : List SlotId) : st.sweep c pending = st.enter c (.sweep pending) := by
  cases pending <;> rfl

theorem count_eq (found : Nat) (pending : List SlotId) :
    st.count c found pending = st.enter c (.count found pending) := by
  cases pending <;> rfl

theorem useHandle_eq (use : Use) (h : HandleId) :
    st.useHandle c use h =
      { st with events := st.events ++ (use.events h).map (c, ·) }.enter c (use.phase h) := by
  cases use <;> simp [useHandle, Use.events, Use.phase, finish, emit, enter]

/-- While a handle is in use its task waits for the answer, and finishes with it. -/
theorem stepAcquire_using (timeout : Nat) (target : String) (use : Use) (h : HandleId)
    (answer : Answer) :
    st.stepAcquire timeout target use c (.using h) answer =
      (use.outcome? answer).map (st.finish c) := by
  cases use <;> rcases answer with _ | _ | _ | _ | _ | _ | _ | (_ | _) | (_ | _) | _ <;> rfl

theorem useHandle_table (use : Use) (h : HandleId) : (st.useHandle c use h).table = st.table := by
  cases use <;> rfl

end State

@[simp] theorem Table.modifySlot_mapped (t : Table) (s : SlotId) (f : Slot → Slot) :
    (t.modifySlot s f).mapped = t.mapped := rfl

@[simp] theorem Table.modifySlot_holder (t : Table) (s : SlotId) (f : Slot → Slot) :
    (t.modifySlot s f).holder = t.holder := rfl

theorem Table.slot_modifySlot_of_ne {t : Table} {s s' : SlotId} {f : Slot → Slot} (h : s ≠ s') :
    (t.modifySlot s f).slot s' = t.slot s' := by
  simp [Table.slot, Table.modifySlot, h]

theorem Table.slot_modifySlot_self {t : Table} {s : SlotId} {f : Slot → Slot}
    (h : s < t.slots.length) : (t.modifySlot s f).slot s = f (t.slot s) := by
  simp [Table.slot, Table.modifySlot, h]

theorem Table.modifySlot_modifySlot (t : Table) (s : SlotId) (f g : Slot → Slot) :
    (t.modifySlot s f).modifySlot s g = t.modifySlot s (g ∘ f) := by
  simp [Table.modifySlot, List.modify_modify_eq]

/-- There is nothing to change in a slot that was never made. -/
theorem Table.modifySlot_of_le {t : Table} {s : SlotId} {f : Slot → Slot}
    (h : t.slots.length ≤ s) : t.modifySlot s f = t := by
  have hslots : t.slots.modify s f = t.slots := List.modify_eq_self h
  simp [Table.modifySlot, hslots]

/-- A slot that a task has, or that holds a handle, was made. -/
theorem Table.lt_of_slot_ne {t : Table} {s : SlotId} (h : t.slot s ≠ {}) :
    s < t.slots.length := by
  refine Nat.lt_of_not_le fun hle => h ?_
  simp [Table.slot, List.getElem?_eq_none hle]

theorem Table.lt_of_holder {t : Table} {s : SlotId} {c : TaskId}
    (h : (t.slot s).holder = some c) : s < t.slots.length :=
  lt_of_slot_ne fun hslot => by simp [hslot] at h

theorem Table.lt_of_entry {t : Table} {s : SlotId} {h : HandleId}
    (he : (t.slot s).entry = some h) : s < t.slots.length :=
  lt_of_slot_ne fun hslot => by simp [hslot] at he

/-! ## Looks at the table -/

/-- What a task finds in the table, and what it does there. -/
inductive Look (st : State) (c : TaskId) : Request → Phase → Phase → State → Prop where
  | found {target : String} {use : Use} {s : SlotId} (hfind : st.table.find? target = some s) :
    Look st c (.acquire target use) .finding (.entering s) (st.enter c (.entering s))
  | made {target : String} {use : Use} (hfind : st.table.find? target = none) :
    Look st c (.acquire target use) .finding (.entering st.table.slots.length)
      ({ st with table := (st.table.findOrMake target).2 }.enter c
        (.entering st.table.slots.length))
  | inUse {target : String} {use : Use} {s : SlotId} {h : HandleId}
    (hfind : st.table.find? target = some s) (hentry : (st.table.slot s).entry = some h) :
    Look st c (.acquire target use) (.checking s) (.probing s h) (st.enter c (.probing s h))
  | empty {target : String} {use : Use} {s : SlotId}
    (hfind : st.table.find? target = some s) (hentry : (st.table.slot s).entry = none) :
    Look st c (.acquire target use) (.checking s) (.resolving s) (st.enter c (.resolving s))
  | dropped {target : String} {use : Use} {s : SlotId} (hfind : st.table.find? target ≠ some s) :
    Look st c (.acquire target use) (.checking s) (.leaving s none) (st.enter c (.leaving s none))
  | evicted {target : String} {use : Use} {s : SlotId} {reason : Unavailability} :
    Look st c (.acquire target use) (.evicting s reason)
      (.leaving s (some (.failed (.unavailable target reason))))
      ({ st with table := st.table.unmapIfCurrent target s }.enter c
        (.leaving s (some (.failed (.unavailable target reason)))))
  | notMapped {target : String} (hfind : st.table.find? target = none) :
    Look st c (.close target) .unmapping (.finished (.closed false))
      (st.enter c (.finished (.closed false)))
  | unmapped {target : String} {s : SlotId} (hfind : st.table.find? target = some s) :
    Look st c (.close target) .unmapping (.emptying s)
      ({ st with table := st.table.unmap target }.enter c (.emptying s))
  | unmappedAll {pending : List SlotId} (horder : pending.Perm (st.table.mapped.map Prod.snd)) :
    Look st c .closeAll .unmappingAll (.sweep pending)
      ({ st with table := st.table.unmapAll }.enter c (.sweep pending))
  | absent {target : String} (hfind : st.table.find? target = none) :
    Look st c (.contains target) .looking (.finished (.contained false))
      (st.enter c (.finished (.contained false)))
  | present {target : String} {s : SlotId} (hfind : st.table.find? target = some s) :
    Look st c (.contains target) .looking (.peeking s) (st.enter c (.peeking s))
  | listed {pending : List SlotId} (horder : pending.Perm (st.table.mapped.map Prod.snd)) :
    Look st c .count .listing (.count 0 pending) (st.enter c (.count 0 pending))

/-! ## Turns with the slots and the store -/

/-- What a task does that needs no lock but that of its slot. Where it has only now come to the
    slot, it has the lock of it. -/
inductive Turn (timeout : Nat) (st : State) (c : TaskId) :
    Request → Phase → Phase → State → Prop where
  | entered {target : String} {use : Use} {s : SlotId}
    (hholder : (st.table.slot s).holder = some c) :
    Turn timeout st c (.acquire target use) (.entering s) (.checking s) (st.enter c (.checking s))
  | alive {target : String} {use : Use} {s : SlotId} {h : HandleId} :
    Turn timeout st c (.acquire target use) (.probing s h) (use.phase h)
      (((st.emit c (.probed h true)).release s).useHandle c use h)
  | dead {target : String} {use : Use} {s : SlotId} {h : HandleId} :
    Turn timeout st c (.acquire target use) (.probing s h) (.discarding s h)
      (((st.emit c (.probed h false)).setEntry s none).closeHandle c h (.discarding s h))
  | discarded {target : String} {use : Use} {s : SlotId} {h : HandleId} :
    Turn timeout st c (.acquire target use) (.discarding s h) (.resolving s)
      (st.enter c (.resolving s))
  | unknown {target : String} {use : Use} {s : SlotId} :
    Turn timeout st c (.acquire target use) (.resolving s) (.evicting s (.unknownTarget target))
      (st.enter c (.evicting s (.unknownTarget target)))
  | inactive {target : String} {use : Use} {s : SlotId} {descriptor : Target}
    (hactive : descriptor.active = false) :
    Turn timeout st c (.acquire target use) (.resolving s) (.evicting s .inactive)
      (st.enter c (.evicting s .inactive))
  | asked {target : String} {use : Use} {s : SlotId} {descriptor : Target}
    (hactive : descriptor.active = true) :
    Turn timeout st c (.acquire target use) (.resolving s) (.connecting s descriptor)
      ((st.emit c (.connect target descriptor timeout)).enter c (.connecting s descriptor))
  | connected {target : String} {use : Use} {s : SlotId} {descriptor : Target} :
    Turn timeout st c (.acquire target use) (.connecting s descriptor)
      (.storing s st.opened.length)
      (({ st with opened := st.opened ++ [target] }.emit c (.opened st.opened.length)).enter c
        (.storing s st.opened.length))
  | failed {target : String} {use : Use} {s : SlotId} {descriptor : Target}
    {reason : Unavailability} :
    Turn timeout st c (.acquire target use) (.connecting s descriptor) (.evicting s reason)
      (st.enter c (.evicting s reason))
  | stored {target : String} {use : Use} {s : SlotId} {h : HandleId} :
    Turn timeout st c (.acquire target use) (.storing s h) (use.phase h)
      (((st.setEntry s (some h)).release s).useHandle c use h)
  | retried {target : String} {use : Use} {s : SlotId} :
    Turn timeout st c (.acquire target use) (.leaving s none) .finding
      ((st.release s).enter c .finding)
  | left {target : String} {use : Use} {s : SlotId} {reply : Reply} :
    Turn timeout st c (.acquire target use) (.leaving s (some reply)) (.finished reply)
      ((st.release s).enter c (.finished reply))
  | used {target : String} {use : Use} {h : HandleId} {answer : Answer} {reply : Reply}
    (hreply : use.outcome? answer = some reply) :
    Turn timeout st c (.acquire target use) (.using h) (.finished reply)
      (st.enter c (.finished reply))
  | foundEmpty {target : String} {s : SlotId} (hholder : (st.table.slot s).holder = some c)
    (hentry : (st.table.slot s).entry = none) :
    Turn timeout st c (.close target) (.emptying s) (.finished (.closed false))
      ((st.release s).enter c (.finished (.closed false)))
  | emptied {target : String} {s : SlotId} {h : HandleId}
    (hholder : (st.table.slot s).holder = some c) (hentry : (st.table.slot s).entry = some h) :
    Turn timeout st c (.close target) (.emptying s) (.closing h)
      (((st.setEntry s none).release s).closeHandle c h (.closing h))
  | closed {target : String} {h : HandleId} :
    Turn timeout st c (.close target) (.closing h) (.finished (.closed true))
      (st.enter c (.finished (.closed true)))
  | sweptEmpty {s : SlotId} {pending : List SlotId} (hholder : (st.table.slot s).holder = some c)
    (hentry : (st.table.slot s).entry = none) :
    Turn timeout st c .closeAll (.sweeping (s :: pending)) (.sweep pending)
      ((st.release s).enter c (.sweep pending))
  | swept {s : SlotId} {h : HandleId} {pending : List SlotId}
    (hholder : (st.table.slot s).holder = some c) (hentry : (st.table.slot s).entry = some h) :
    Turn timeout st c .closeAll (.sweeping (s :: pending)) (.sweepClosing s h pending)
      ((st.setEntry s none).closeHandle c h (.sweepClosing s h pending))
  | sweepClosed {s : SlotId} {h : HandleId} {pending : List SlotId} :
    Turn timeout st c .closeAll (.sweepClosing s h pending) (.sweep pending)
      ((st.release s).enter c (.sweep pending))
  | peeked {target : String} {s : SlotId} (hholder : (st.table.slot s).holder = some c) :
    Turn timeout st c (.contains target) (.peeking s)
      (.finished (.contained (st.table.slot s).entry.isSome))
      ((st.release s).enter c (.finished (.contained (st.table.slot s).entry.isSome)))
  | counted {s : SlotId} {pending : List SlotId} {found : Nat}
    (hholder : (st.table.slot s).holder = some c) :
    Turn timeout st c .count (.counting (s :: pending) found)
      (.count (if (st.table.slot s).entry.isSome then found + 1 else found) pending)
      ((st.release s).enter c
        (.count (if (st.table.slot s).entry.isSome then found + 1 else found) pending))

/-! ## What looks and turns have in common -/

/-- Whether a task has come to the slot it deals with. -/
def State.Arrived (st : State) (c : TaskId) (p : Phase) : Prop :=
  ∀ s, p.wants? = some s → (st.table.slot s).holder = some c

namespace Look

variable {st st' : State} {c : TaskId} {r : Request} {p p' : Phase}

theorem wantsTable (h : Look st c r p p' st') : p.wantsTable = true := by
  cases h <;> rfl

theorem tasks (h : Look st c r p p' st') :
    st'.tasks = st.tasks.modify c fun t => { t with phase := p' } := by
  cases h <;> rfl

theorem events (h : Look st c r p p' st') : st'.events = st.events := by
  cases h <;> rfl

/-- A look changes no slot. -/
theorem slot (h : Look st c r p p' st') (s : SlotId) : st'.table.slot s = st.table.slot s := by
  cases h with
  | made hfind =>
    rcases Nat.lt_trichotomy s st.table.slots.length with hs | rfl | hs
    · simp [Table.findOrMake, hfind, Table.slot, List.getElem?_append, hs]
    · simp [Table.findOrMake, hfind, Table.slot]
    · have hnone : (st.table.slots ++ [({} : Slot)])[s]? = none :=
        List.getElem?_eq_none (by simpa using Nat.succ_le_of_lt hs)
      simp [Table.findOrMake, hfind, Table.slot, hnone, Nat.le_of_lt hs]
  | evicted =>
    simp only [State.enter_table, Table.unmapIfCurrent]
    split <;> rfl
  | _ => rfl

/-- A look is made from outside of any slot, or from within the one that the task keeps. -/
theorem holds? (h : Look st c r p p' st') : p'.holds? = p.slot? := by
  cases h with
  | unmappedAll => exact Phase.holds?_sweep _
  | listed => exact Phase.holds?_count _ _
  | _ => rfl

end Look

namespace Turn

variable {timeout : Nat} {st st' : State} {c : TaskId} {r : Request} {p p' : Phase}

theorem wantsTable (h : Turn timeout st c r p p' st') : p.wantsTable = false := by
  cases h <;> rfl

theorem tasks (h : Turn timeout st c r p p' st') :
    st'.tasks = st.tasks.modify c fun t => { t with phase := p' } := by
  cases h <;> simp [State.useHandle_eq, State.closeHandle_eq, State.release, State.setEntry]

theorem mapped (h : Turn timeout st c r p p' st') : st'.table.mapped = st.table.mapped := by
  cases h <;> simp [State.useHandle_eq, State.closeHandle_eq, State.release, State.setEntry]

theorem holder (h : Turn timeout st c r p p' st') : st'.table.holder = st.table.holder := by
  cases h <;> simp [State.useHandle_eq, State.closeHandle_eq, State.release, State.setEntry]

/-- A turn has the dealings of its task that its phases tell. -/
theorem events (h : Turn timeout st c r p p' st') :
    st'.events = st.events ++ (dealings timeout r p p').map (c, ·) := by
  cases h with
  | @alive _ use | @stored _ use =>
    cases use <;> simp [State.useHandle_eq, State.release, State.setEntry, dealings,
      Phase.learned, Request.begun, Use.phase, Use.events]
  | @sweptEmpty _ pending | @sweepClosed _ _ pending =>
    cases pending <;> simp [State.release, dealings, Phase.learned, Request.begun, Phase.sweep]
  | @counted _ pending =>
    cases pending <;> simp [State.release, dealings, Phase.learned, Request.begun, Phase.count]
  | _ => simp [State.closeHandle_eq, State.release, State.setEntry, dealings, Phase.learned,
      Request.begun]

theorem arrived (h : Turn timeout st c r p p' st') : st.Arrived c p := by
  intro s hwants
  cases h with
  | entered hholder => exact Option.some.inj hwants ▸ hholder
  | foundEmpty hholder => exact Option.some.inj hwants ▸ hholder
  | emptied hholder => exact Option.some.inj hwants ▸ hholder
  | sweptEmpty hholder => exact Option.some.inj hwants ▸ hholder
  | swept hholder => exact Option.some.inj hwants ▸ hholder
  | peeked hholder => exact Option.some.inj hwants ▸ hholder
  | counted hholder => exact Option.some.inj hwants ▸ hholder
  | _ => cases hwants

/-- A turn leaves the table as it is, or changes the slot that the task deals with. The task keeps
    the slot or gives it up. -/
theorem table_cases (h : Turn timeout st c r p p' st') :
    (st'.table = st.table ∧ p'.holds? = p.slot?) ∨
    ∃ s f, p.slot? = some s ∧ st'.table = st.table.modifySlot s f ∧
      (((∀ slot, (f slot).SameLock slot) ∧ p'.holds? = some s) ∨
        ((∀ slot, (f slot).SameLock slot.release) ∧ p'.holds? = none)) := by
  cases h with
  | entered | discarded | unknown | inactive | asked | connected | failed | used | closed =>
    exact .inl ⟨rfl, rfl⟩
  | dead | swept =>
    exact .inr ⟨_, _, rfl, rfl, .inl ⟨fun _ => ⟨rfl, rfl⟩, rfl⟩⟩
  | retried | left | foundEmpty | peeked =>
    exact .inr ⟨_, _, rfl, rfl, .inr ⟨fun _ => .rfl, rfl⟩⟩
  | sweptEmpty | sweepClosed =>
    exact .inr ⟨_, _, rfl, rfl, .inr ⟨fun _ => .rfl, Phase.holds?_sweep _⟩⟩
  | counted =>
    exact .inr ⟨_, _, rfl, rfl, .inr ⟨fun _ => .rfl, Phase.holds?_count _ _⟩⟩
  | alive =>
    exact .inr ⟨_, _, rfl, State.useHandle_table .., .inr ⟨fun _ => .rfl, Use.holds?_phase ..⟩⟩
  | @stored _ use s h =>
    refine .inr ⟨s, Slot.release ∘ fun slot => { slot with entry := some h }, rfl, ?_,
      .inr ⟨fun slot => Slot.sameLock_release ⟨rfl, rfl⟩, Use.holds?_phase ..⟩⟩
    exact (State.useHandle_table ..).trans (Table.modifySlot_modifySlot ..)
  | @emptied _ s =>
    exact .inr ⟨s, Slot.release ∘ fun slot => { slot with entry := none }, rfl,
      Table.modifySlot_modifySlot .., .inr ⟨fun slot => Slot.sameLock_release ⟨rfl, rfl⟩, rfl⟩⟩

end Turn

/-! ## Steps -/

/-- What a step of a task is. -/
inductive Move (timeout : Nat) (st : State) (c : TaskId) (r : Request) (p : Phase) :
    State → Prop where
  | lockTable (hwants : p.wantsTable = true) (hfree : st.table.holder = none) :
    Move timeout st c r p { st with table := { st.table with holder := some c } }
  | lock {s : SlotId} (hwants : p.wants? = some s) (hfree : (st.table.slot s).holder = none) :
    Move timeout st c r p (st.modifySlot s fun slot => { slot with holder := some c })
  | queue {s : SlotId} {d : TaskId} (hwants : p.wants? = some s)
    (hheld : (st.table.slot s).holder = some d) (hne : d ≠ c)
    (hnew : c ∉ (st.table.slot s).waiting) :
    Move timeout st c r p (st.modifySlot s fun slot => { slot with waiting := slot.waiting ++ [c] })
  | look {p' : Phase} {st' : State} (hholder : st.table.holder = some c)
    (hlook : Look st c r p p' st') :
    Move timeout st c r p { st' with table := { st'.table with holder := none } }
  | turn {p' : Phase} {st' : State} (hturn : Turn timeout st c r p p' st') :
    Move timeout st c r p st'

namespace Move

variable {timeout : Nat} {st st' : State} {c : TaskId} {r : Request} {p : Phase} {answer : Answer}

/-- A look at the table takes the lock first. -/
theorem of_withTable {look : State → State} (hwants : p.wantsTable = true)
    (hlook : ∃ p', Look st c r p p' (look st)) (h : st.withTable c look = some st') :
    Move timeout st c r p st' := by
  obtain ⟨p', hlook⟩ := hlook
  simp only [State.withTable] at h
  split at h
  · rename_i hfree
    cases h
    exact .lockTable hwants hfree
  · rename_i d hholder
    split at h
    · rename_i hd
      cases h
      exact .look (hd ▸ hholder) hlook
    · cases h

/-- A turn with a slot takes its lock first, or lines up for it. -/
theorem of_withSlot {s : SlotId} {next : State → State} (hwants : p.wants? = some s)
    (hturn : (st.table.slot s).holder = some c → ∃ p', Turn timeout st c r p p' (next st))
    (h : st.withSlot c s next = some st') : Move timeout st c r p st' := by
  simp only [State.withSlot] at h
  split at h
  · rename_i hfree
    cases h
    exact .lock hwants hfree
  · rename_i d hheld
    split at h
    · rename_i hd
      cases h
      obtain ⟨p', hturn⟩ := hturn (hd ▸ hheld)
      exact .turn hturn
    · rename_i hne
      split at h
      · cases h
      · rename_i hnew
        cases h
        exact .queue hwants hheld hne (by simpa using hnew)

theorem of_stepAcquire {target : String} {use : Use}
    (h : st.stepAcquire timeout target use c p answer = some st') :
    Move timeout st c (.acquire target use) p st' := by
  simp only [State.stepAcquire] at h
  split at h
  · -- finding
    refine of_withTable rfl ?_ h
    cases hfind : st.table.find? target with
    | some s =>
      exact ⟨_, by simpa [Table.findOrMake, hfind] using Look.found hfind⟩
    | none =>
      have hmade : Look st c (.acquire target use) .finding _ _ := .made hfind
      exact ⟨_, by simpa [Table.findOrMake, hfind] using hmade⟩
  · -- entering
    exact of_withSlot rfl (fun hholder => ⟨_, .entered hholder⟩) h
  · -- checking
    refine of_withTable rfl ?_ h
    simp only [Table.isCurrent, decide_eq_true_eq]
    split
    · rename_i hfind
      split
      · rename_i hd hentry
        exact ⟨_, .inUse hfind hentry⟩
      · rename_i hentry
        exact ⟨_, .empty hfind hentry⟩
    · rename_i hfind
      exact ⟨_, .dropped hfind⟩
  · cases h
    exact .turn .alive
  · cases h
    exact .turn .dead
  · cases h
    exact .turn .discarded
  · cases h
    exact .turn .unknown
  · -- resolving
    split at h
    · rename_i hactive
      cases h
      exact .turn (.asked hactive)
    · rename_i hactive
      cases h
      exact .turn (.inactive (by simpa using hactive))
  · cases h
    exact .turn .connected
  · cases h
    exact .turn .failed
  · cases h
    exact .turn .failed
  · cases h
    exact .turn .stored
  · exact of_withTable rfl ⟨_, .evicted⟩ h
  · cases h
    exact .turn .retried
  · cases h
    exact .turn .left
  · -- using
    rename_i hd
    obtain ⟨reply, hreply, rfl⟩ :=
      Option.map_eq_some_iff.1 ((st.stepAcquire_using c timeout target use hd _).symm.trans h)
    exact .turn (.used hreply)
  · cases h

theorem of_stepClose {target : String} (h : st.stepClose target c p answer = some st') :
    Move timeout st c (.close target) p st' := by
  simp only [State.stepClose] at h
  split at h
  · -- unmapping
    refine of_withTable rfl ?_ h
    split
    · rename_i hfind
      exact ⟨_, .notMapped hfind⟩
    · rename_i s hfind
      exact ⟨_, .unmapped hfind⟩
  · -- emptying
    refine of_withSlot rfl (fun hholder => ?_) h
    split
    · rename_i hentry
      exact ⟨_, .foundEmpty hholder hentry⟩
    · rename_i hd hentry
      exact ⟨_, .emptied hholder hentry⟩
  · cases h
    exact .turn .closed
  · cases h

/-- A task goes through all mapped slots, in some order. -/
theorem perm_of_order? {pending : List SlotId} (h : st.order? answer = some pending) :
    pending.Perm (st.table.mapped.map Prod.snd) := by
  unfold State.order? at h
  split at h
  · cases h
    exact .refl _
  · split at h
    · rename_i hperm
      cases h
      exact List.isPerm_iff.1 hperm
    · cases h
  · cases h

theorem of_stepCloseAll (h : st.stepCloseAll c p answer = some st') :
    Move timeout st c .closeAll p st' := by
  simp only [State.stepCloseAll, State.sweep_eq] at h
  split at h
  · -- unmappingAll
    obtain ⟨pending, horder, h⟩ := Option.bind_eq_some_iff.1 h
    exact of_withTable rfl ⟨_, .unmappedAll (perm_of_order? horder)⟩ h
  · -- sweeping
    refine of_withSlot rfl (fun hholder => ?_) h
    split
    · rename_i hentry
      exact ⟨_, .sweptEmpty hholder hentry⟩
    · rename_i hd hentry
      exact ⟨_, .swept hholder hentry⟩
  · cases h
    exact .turn .sweepClosed
  · cases h

theorem of_stepContains {target : String} (h : st.stepContains target c p answer = some st') :
    Move timeout st c (.contains target) p st' := by
  simp only [State.stepContains] at h
  split at h
  · -- looking
    refine of_withTable rfl ?_ h
    split
    · rename_i hfind
      exact ⟨_, .absent hfind⟩
    · rename_i s hfind
      exact ⟨_, .present hfind⟩
  · exact of_withSlot rfl (fun hholder => ⟨_, .peeked hholder⟩) h
  · cases h

theorem of_stepCount (h : st.stepCount c p answer = some st') :
    Move timeout st c .count p st' := by
  simp only [State.stepCount, State.count_eq] at h
  split at h
  · -- listing
    obtain ⟨pending, horder, h⟩ := Option.bind_eq_some_iff.1 h
    exact of_withTable rfl ⟨_, .listed (perm_of_order? horder)⟩ h
  · exact of_withSlot rfl (fun hholder => ⟨_, .counted hholder⟩) h
  · cases h

end Move

theorem Move.events {timeout : Nat} {st st' : State} {c : TaskId} {r : Request} {p : Phase}
    (h : Move timeout st c r p st') : st.events <+: st'.events := by
  cases h with
  | look hholder hlook => exact hlook.events ▸ List.prefix_rfl
  | turn hturn => exact hturn.events ▸ List.prefix_append ..
  | _ => exact List.prefix_rfl

/-- Every step of a task is a move. -/
theorem move_of_step {timeout : Nat} {st st' : State} {c : TaskId} {answer : Answer}
    (h : st.step? timeout c answer = some st') :
    ∃ r p, st.tasks[c]? = some ⟨r, p⟩ ∧ Move timeout st c r p st' := by
  cases htask : st.tasks[c]? with
  | none => simp [State.step?, htask] at h
  | some task =>
    obtain ⟨r, p⟩ := task
    refine ⟨r, p, rfl, ?_⟩
    simp only [State.step?, htask, Option.bind_eq_bind, Option.bind_some] at h
    cases r with
    | acquire target use => exact .of_stepAcquire h
    | close target => exact .of_stepClose h
    | closeAll => exact .of_stepCloseAll h
    | contains target => exact .of_stepContains h
    | count => exact .of_stepCount h

end ShellQuery.Cache
