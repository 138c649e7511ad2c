/-
  ShellQuery.Proofs.Cache.Flight

  How many handles are opened for a target. Each one that was opened, and each one that an
  acquisition is about to open, is paid for: by a call of close that has dropped a slot of the
  target, by a probe that has found a handle of it dead, or, for one of them, by the slot that
  serves the target now (`Charged`). A slot that is empty, with no acquisition that fills it, serves
  nobody; so an acquisition that has found its slot empty and mapped has one opening free.

  Connections are counted against handles (`Balanced`): each one that was asked for is pending, has
  opened its handle or has failed its acquisition.
-/
import ShellQuery.Proofs.Cache.Origin

/-- Whether a connection that was asked for has failed. -/
def ShellQuery.Unavailability.isLost : Unavailability → Bool
  | .refused _ | .timedOut _ => true
  | .unknownTarget _ | .inactive => false

namespace ShellQuery.Cache

/-! ## Phases and requests -/

namespace Phase

/-- Whether a task waits for a connection. -/
def isConnecting : Phase → Bool
  | .connecting _ _ => true
  | _ => false

/-- Whether a task is about to open a handle, having found its slot empty. -/
def isDue : Phase → Bool
  | .discarding _ _ | .resolving _ | .connecting _ _ => true
  | _ => false

/-- The slot that a task fills, having found it empty. -/
def fills? : Phase → Option SlotId
  | .discarding s _ | .resolving s | .connecting s _ | .storing s _ => some s
  | _ => none

/-- Why a task comes to an end without a handle. -/
def failure? : Phase → Option Unavailability
  | .evicting _ reason | .leaving _ (some (.failed (.unavailable _ reason)))
  | .finished (.failed (.unavailable _ reason)) => some reason
  | _ => none

theorem holds?_of_fills? {p : Phase} {s : SlotId} (h : p.fills? = some s) : p.holds? = some s := by
  cases p <;> simp_all [fills?, holds?]

@[simp] theorem wantsTable_sweep (pending : List SlotId) : (sweep pending).wantsTable = false := by
  cases pending <;> rfl

end Phase

namespace Use

@[simp] theorem isConnecting_phase (use : Use) (h : HandleId) :
    (use.phase h).isConnecting = false := by
  cases use <;> rfl

@[simp] theorem isDue_phase (use : Use) (h : HandleId) : (use.phase h).isDue = false := by
  cases use <;> rfl

@[simp] theorem failure?_phase (use : Use) (h : HandleId) : (use.phase h).failure? = none := by
  cases use <;> rfl

end Use

/-- Whether a request is to acquire a handle of a target. -/
def Request.acquires (target : String) : Request → Bool
  | .acquire name _ => name = target
  | _ => false

/-- Whether a request is to close the handle of a target, or all. -/
def Request.closes (target : String) : Request → Bool
  | .close name => name = target
  | .closeAll => true
  | _ => false

namespace Task

variable (target : String) (t : Task)

/-- Whether a task is about to open a handle of a target. -/
def isDue : Bool :=
  t.request.acquires target && t.phase.isDue

/-- Whether a task waits for a connection to a target. -/
def isConnecting : Bool :=
  t.request.acquires target && t.phase.isConnecting

/-- Whether a task has failed to connect to a target. -/
def hasLost : Bool :=
  t.request.acquires target && t.phase.failure?.any Unavailability.isLost

/-- Whether a call to close a target, or all, has dropped what it has found in the table. -/
def hasDropped : Bool :=
  t.request.closes target && !t.phase.wantsTable

end Task

/-! ## Counts -/

namespace Event

/-- Whether an event is that a handle of a target is found dead. -/
def isDeath (opened : List String) (target : String) : Event → Bool
  | .probed h false => opened[h]? = some target
  | _ => false

/-- Whether an event is that a connection to a target is asked for. -/
def isConnect (target : String) : Event → Bool
  | .connect name _ _ => name = target
  | _ => false

end Event

namespace State

variable (st : State) (target : String)

/-- How many calls were made to close a target, or all. -/
def closings : Nat :=
  st.tasks.countP (·.request.closes target)

/-- How often a handle of a target was found dead. -/
def deaths : Nat :=
  st.events.countP fun e => e.2.isDeath st.opened target

/-- How often a connection to a target was asked for. -/
def connects : Nat :=
  st.events.countP fun e => e.2.isConnect target

/-- How many connections to a target are waited for. -/
def pending : Nat :=
  st.tasks.countP (·.isConnecting target)

/-- How many connections to a target have failed. -/
def losses : Nat :=
  st.tasks.countP (·.hasLost target)

/-- How many acquisitions are about to open a handle of a target. -/
def due : Nat :=
  st.tasks.countP (·.isDue target)

/-- How many calls of close have dropped a slot of a target, had there been one. -/
def dropped : Nat :=
  st.tasks.countP (·.hasDropped target)

/-- Whether the slot of a target holds a handle, or an acquisition fills it. -/
def Served : Prop :=
  ∃ s, (target, s) ∈ st.table.mapped ∧ (st.entry s ≠ none ∨
    ∃ (c : TaskId) (r : Request) (p : Phase), st.tasks[c]? = some ⟨r, p⟩ ∧ p.fills? = some s)

end State

section
variable {owners : List String} {timeout : Nat} {st st' : State} {c : TaskId} {r : Request}
  {p p' : Phase} {target : String}

/-- How a step of a task changes how many tasks are of a kind. -/
theorem countP_enter {tasks' : List Task} (htask : st.tasks[c]? = some ⟨r, p⟩)
    (htasks : tasks' = st.tasks.modify c fun t => { t with phase := p' }) (q : Task → Bool) :
    tasks'.countP q + (if q ⟨r, p⟩ then 1 else 0) =
      st.tasks.countP q + (if q ⟨r, p'⟩ then 1 else 0) :=
  htasks ▸ countP_modify htask

theorem Turn.opened (h : Turn timeout st c r p p' st') :
    st'.opened = st.opened ∨
      ∃ target use s descriptor, r = .acquire target use ∧ p = .connecting s descriptor ∧
        p' = .storing s st.opened.length ∧ st'.opened = st.opened ++ [target] := by
  cases h with
  | connected => exact .inr ⟨_, _, _, _, rfl, rfl, rfl, rfl⟩
  | alive | stored => exact .inl (State.opened_useHandle ..)
  | _ => exact .inl rfl

theorem Turn.opened_prefix (h : Turn timeout st c r p p' st') : st.opened <+: st'.opened := by
  rcases h.opened with hsame | ⟨name, -, -, -, -, -, -, hnew⟩
  · exact hsame ▸ List.prefix_rfl
  · exact hnew ▸ List.prefix_append ..

/-- What was found dead stays so. -/
theorem State.deaths_le (hevents : st.events <+: st'.events) (hopened : st.opened <+: st'.opened) :
    st.deaths target ≤ st'.deaths target := by
  refine Nat.le_trans ?_ (hevents.sublist.countP_le (p := fun e => e.2.isDeath st'.opened target))
  refine List.countP_mono_left fun e _ => ?_
  unfold Event.isDeath
  split
  · rename_i h _
    simp only [decide_eq_true_eq]
    intro hopened'
    obtain ⟨hlt, -⟩ := List.getElem?_eq_some_iff.1 hopened'
    obtain ⟨rest, hrest⟩ := hopened
    rwa [← hrest, List.getElem?_append_left hlt]
  · exact id

/-- A probe that finds a handle dead counts for the target of the handle. -/
theorem State.deaths_dead {h : HandleId} {s : SlotId} {name : String}
    (hopened : st.opened[h]? = some name) :
    (((st.emit c (.probed h false)).setEntry s none).closeHandle c h (.discarding s h)).deaths
      target = st.deaths target + if name = target then 1 else 0 := by
  have hdead : Event.isDeath st.opened target (.probed h false) = decide (name = target) := by
    simp [Event.isDeath, hopened]
  have hclosed : Event.isDeath st.opened target (.closed h) = false := rfl
  simp [State.deaths, State.closeHandle_eq, State.setEntry, List.countP_append, List.countP_cons,
    hdead, hclosed]

/-! ## What an opening is paid by -/

/-- The openings of a target, and those that are due, are paid for, one of them by the slot that
    serves the target. -/
structure Charged (target : String) (st : State) : Prop where
  bound : st.opened.count target + st.due target ≤ st.dropped target + st.deaths target + 1
  unserved : ¬ st.Served target →
    st.opened.count target + st.due target ≤ st.dropped target + st.deaths target

/-- A step that opens or lets fall due no more than it pays for, or that pays for one more, or that
    comes to serve the target. -/
theorem Charged.enter (h : Charged target st) (htask : st.tasks[c]? = some ⟨r, p⟩)
    (htasks : st'.tasks = st.tasks.modify c fun t => { t with phase := p' })
    (hpaid :
      let cost := st'.opened.count target + (if Task.isDue target ⟨r, p'⟩ then 1 else 0) +
        st.deaths target + (if Task.hasDropped target ⟨r, p⟩ then 1 else 0)
      let paid := st.opened.count target + (if Task.isDue target ⟨r, p⟩ then 1 else 0) +
        st'.deaths target + (if Task.hasDropped target ⟨r, p'⟩ then 1 else 0)
      (cost ≤ paid ∧ (st.Served target → st'.Served target)) ∨ cost + 1 ≤ paid ∨
        (cost ≤ paid + 1 ∧ ¬ st.Served target ∧ st'.Served target)) : Charged target st' := by
  have hdue := countP_enter htask htasks (·.isDue target)
  have hdropped := countP_enter htask htasks (·.hasDropped target)
  have hbound := h.bound
  have hunserved := h.unserved
  simp only [State.due, State.dropped] at hbound hunserved
  refine ⟨?_, fun hserved => ?_⟩ <;> simp only [State.due, State.dropped]
  · -- the bound: a step that comes to serve the target has the one that was spare until then
    rcases hpaid with ⟨hcost, -⟩ | hcost | ⟨hcost, hnot, -⟩
    · omega
    · omega
    · have := hunserved hnot
      omega
  · -- the sharper bound, where the target is not served after the step
    rcases hpaid with ⟨hcost, hkeep⟩ | hcost | ⟨-, -, hnow⟩
    · have := hunserved fun hst => hserved (hkeep hst)
      omega
    · omega
    · exact absurd hnow hserved

/-- A target is served on where its slot stays mapped and is filled as long as it is empty. -/
theorem State.Served.enter (h : st.Served target) (htask : st.tasks[c]? = some ⟨r, p⟩)
    (htasks : st'.tasks = st.tasks.modify c fun t => { t with phase := p' })
    (hmapped : ∀ {s}, (target, s) ∈ st.table.mapped → (target, s) ∈ st'.table.mapped)
    (hkeep : ∀ {s}, (target, s) ∈ st.table.mapped → st.entry s ≠ none ∨ p.fills? = some s →
      st'.entry s ≠ none ∨ p'.fills? = some s) : st'.Served target := by
  obtain ⟨s, hmem, hs⟩ := h
  have hself (hs : st.entry s ≠ none ∨ p.fills? = some s) : st'.Served target := by
    refine ⟨s, hmapped hmem, (hkeep hmem hs).imp_right fun hfills => ?_⟩
    exact ⟨c, r, p', getElem?_self_of_enter htask htasks, hfills⟩
  rcases hs with hentry | ⟨d, r', q, htask', hfills⟩
  · exact hself (.inl hentry)
  · by_cases hd : d = c
    · subst hd
      cases htask.symm.trans htask'
      exact hself (.inr hfills)
    · exact ⟨s, hmapped hmem, .inr ⟨d, r', q,
        (getElem?_of_enter_of_ne htask htasks hd).trans htask', hfills⟩⟩

/-- A slot that a task has, and does not fill, serves nobody while it is empty. -/
theorem Account.not_served (hacc : Account owners st) (hlocks : Locks st) {s : SlotId}
    (htask : st.tasks[c]? = some ⟨r, p⟩) (hholds : p.holds? = some s) (hfills : p.fills? = none)
    (hfind : st.table.find? target = some s) (hentry : st.entry s = none) :
    ¬ st.Served target := by
  rintro ⟨s', hmem, hs⟩
  cases hfind.symm.trans (Table.find?_of_mem hacc.keys hmem)
  rcases hs with hne | ⟨d, r', q, htask', hfills'⟩
  · exact hne hentry
  · have hc := hlocks.holds htask hholds
    have hd := hlocks.holds htask' (Phase.holds?_of_fills? hfills')
    cases hc.symm.trans hd
    cases htask.symm.trans htask'
    simp [hfills] at hfills'

/-- A step that opens no handle of the target and lets none fall due. -/
theorem Charged.keep (h : Charged target st) (htask : st.tasks[c]? = some ⟨r, p⟩)
    (htasks : st'.tasks = st.tasks.modify c fun t => { t with phase := p' })
    (hopened : st'.opened = st.opened) (hdeaths : st.deaths target ≤ st'.deaths target)
    (hdue : Task.isDue target ⟨r, p'⟩ = true → Task.isDue target ⟨r, p⟩ = true)
    (hdropped : Task.hasDropped target ⟨r, p⟩ = true → Task.hasDropped target ⟨r, p'⟩ = true)
    (hserved : st.Served target → st'.Served target) : Charged target st' := by
  refine h.enter htask htasks (.inl ⟨?_, hserved⟩)
  have hdue' : (if Task.isDue target ⟨r, p'⟩ then 1 else 0) ≤
      if Task.isDue target ⟨r, p⟩ then 1 else 0 := by
    split <;> simp_all
  have hdropped' : (if Task.hasDropped target ⟨r, p⟩ then 1 else 0) ≤
      if Task.hasDropped target ⟨r, p'⟩ then 1 else 0 := by
    split <;> simp_all
  rw [hopened]
  omega

theorem Charged.turn (h : Charged target st) (hacc : Account owners st)
    (htask : st.tasks[c]? = some ⟨r, p⟩) (hturn : Turn timeout st c r p p' st') :
    Charged target st' := by
  have htasks := hturn.tasks
  have hdeaths : st.deaths target ≤ st'.deaths target :=
    State.deaths_le (hturn.events ▸ List.prefix_append ..) hturn.opened_prefix
  have hmapped {s : SlotId} (hs : (target, s) ∈ st.table.mapped) :
      (target, s) ∈ st'.table.mapped := hturn.mapped ▸ hs
  have hfits := hacc.fits htask
  -- the slot of a target is no other target's
  have hother {name : String} {s : SlotId} (howner : owners[s]? = some name)
      (hs : (target, s) ∈ st.table.mapped) : name = target :=
    Option.some.inj (howner.symm.trans (hacc.owned hs))
  have hquiet (hentries : st'.entries = st.entries) (hopened : st'.opened = st.opened)
      (hfills : ∀ s, p.fills? = some s → p'.fills? = some s)
      (hdue : Task.isDue target ⟨r, p'⟩ = true → Task.isDue target ⟨r, p⟩ = true)
      (hdropped : Task.hasDropped target ⟨r, p⟩ = true → Task.hasDropped target ⟨r, p'⟩ = true) :
      Charged target st' :=
    h.keep htask htasks hopened hdeaths hdue hdropped fun hserved =>
      hserved.enter htask htasks hmapped fun _ hs =>
        hs.imp (fun he => State.entry_congr hentries _ ▸ he) (hfills _)
  -- what is taken out of a slot is taken out of one that serves nobody
  have htaken {s : SlotId} (hpending : s ∈ p.pending)
      (hentries : st'.entries = st.entries.set s none)
      (hfills : p.fills? = none) (hserved : st.Served target) : st'.Served target := by
    obtain ⟨-, hunmapped⟩ := hacc.pending_unmapped htask hpending
    refine hserved.enter htask htasks hmapped fun {s'} hmem hs => .inl ?_
    have hss : s ≠ s' := fun hss => hunmapped ⟨target, hss ▸ hmem⟩
    rw [State.entry_of_set_of_ne hentries hss]
    exact hs.resolve_right (by simp [hfills])
  cases hturn with
  | entered | asked | discarded | used | closed =>
    exact hquiet rfl rfl (by simp [Phase.fills?]) (by simp [Task.isDue, Phase.isDue])
      (by simp [Task.hasDropped, Request.closes, Phase.wantsTable])
  | retried | left | foundEmpty | peeked =>
    exact hquiet (State.entries_release ..) rfl (by simp [Phase.fills?])
      (by simp [Task.isDue, Phase.isDue])
      (by simp [Task.hasDropped, Request.closes, Phase.wantsTable])
  | sweptEmpty | sweepClosed | counted =>
    exact hquiet (State.entries_release ..) rfl (by simp [Phase.fills?])
      (by simp [Task.isDue, Request.acquires]) (by simp [Task.hasDropped, Request.closes])
  | alive =>
    refine hquiet ?_ (State.opened_useHandle ..) (by simp [Phase.fills?]) (by simp [Task.isDue])
      (by simp [Task.hasDropped, Request.closes])
    exact (State.entries_useHandle ..).trans (State.entries_release ..)
  -- a probe pays for the handle that will replace the dead one
  | @dead name use s hd =>
    obtain ⟨howner, hentry, -⟩ := hfits
    obtain ⟨name', howner', hopened⟩ := hacc.cached hentry
    cases howner.symm.trans howner'
    refine h.enter htask htasks (.inl ⟨?_, fun hserved => ?_⟩)
    · rw [State.deaths_dead hopened]
      simp [Task.isDue, Task.hasDropped, Request.acquires, Request.closes, Phase.isDue,
        State.closeHandle_eq, State.setEntry]
      omega
    · refine hserved.enter htask htasks hmapped fun {s'} _ hs => ?_
      by_cases hss : s = s'
      · exact .inr (congrArg some hss)
      · have hsame := State.entry_of_set_of_ne (State.entries_setEntry st s none) hss
        exact .inl fun hnone => hs.resolve_right (by simp [Phase.fills?]) (hsame.symm.trans hnone)
  -- an opening that was due for the target falls away
  | @unknown name use s | @inactive name use s | @failed name use s =>
    by_cases hname : name = target
    · subst hname
      refine h.enter htask htasks (.inr (.inl ?_))
      simp [Task.isDue, Task.hasDropped, Request.acquires, Request.closes, Phase.isDue]
      omega
    · refine h.keep htask htasks rfl hdeaths (by simp [Task.isDue, Phase.isDue])
        (by simp [Task.hasDropped, Request.closes]) fun hserved => ?_
      refine hserved.enter htask htasks hmapped fun {s'} hmem hs => .inl (hs.resolve_right ?_)
      intro hfills
      cases hfills
      exact hname (hother hfits.1 hmem)
  | @connected name use s =>
    refine h.enter htask htasks (.inl ⟨?_, fun hserved => ?_⟩)
    · simp [Task.isDue, Task.hasDropped, Request.acquires, Request.closes, Phase.isDue,
        List.count_append, List.count_singleton]
      omega
    · exact hserved.enter htask htasks hmapped fun _ hs => hs.imp id id
  | @stored name use s hd =>
    refine h.keep htask htasks (State.opened_useHandle ..) hdeaths (by simp [Task.isDue])
      (by simp [Task.hasDropped, Request.closes]) fun hserved => ?_
    have hentries : (((st.setEntry s (some hd)).release s).useHandle c use hd).entries =
        st.entries.set s (some hd) :=
      (State.entries_useHandle ..).trans ((State.entries_release ..).trans
        (State.entries_setEntry ..))
    obtain ⟨howner, -⟩ := hfits
    have hlt : s < st.table.slots.length := by
      obtain ⟨hlt, -⟩ := List.getElem?_eq_some_iff.1 howner
      rwa [hacc.length, State.length_entries] at hlt
    refine hserved.enter htask htasks hmapped fun {s'} _ hs => .inl ?_
    by_cases hss : s = s'
    · subst hss
      simp [State.entry_of_set_self hentries hlt]
    · rw [State.entry_of_set_of_ne hentries hss]
      refine hs.resolve_right fun hfills => hss (Option.some.inj hfills)
  | emptied =>
    exact h.keep htask htasks rfl hdeaths (by simp [Task.isDue, Request.acquires])
      (by simp [Task.hasDropped, Phase.wantsTable])
      (htaken (.head _) ((State.entries_release ..).trans (State.entries_setEntry ..)) rfl)
  | swept =>
    exact h.keep htask htasks rfl hdeaths (by simp [Task.isDue, Request.acquires])
      (by simp [Task.hasDropped, Phase.wantsTable])
      (htaken (.head _) (State.entries_setEntry ..) rfl)

theorem Charged.look (h : Charged target st) (hacc : Account owners st) (hlocks : Locks st)
    (htask : st.tasks[c]? = some ⟨r, p⟩) (hlook : Look st c r p p' st') : Charged target st' := by
  have htasks := hlook.tasks
  have hopened : st'.opened = st.opened := by cases hlook <;> rfl
  have hdeaths : st.deaths target ≤ st'.deaths target :=
    State.deaths_le (hlook.events ▸ List.prefix_rfl) (hopened ▸ List.prefix_rfl)
  have hentry (s : SlotId) : st'.entry s = st.entry s := congrArg Slot.entry (hlook.slot s)
  have hfits := hacc.fits htask
  -- a look that leaves the slot of the target in the table
  have hquiet (hmapped : ∀ {s}, (target, s) ∈ st.table.mapped → (target, s) ∈ st'.table.mapped)
      (hdue : Task.isDue target ⟨r, p'⟩ = true → Task.isDue target ⟨r, p⟩ = true)
      (hdropped : Task.hasDropped target ⟨r, p⟩ = true → Task.hasDropped target ⟨r, p'⟩ = true) :
      Charged target st' := by
    have hfills : p.fills? = none := by cases hlook <;> rfl
    refine h.keep htask htasks hopened hdeaths hdue hdropped fun hserved => ?_
    refine hserved.enter htask htasks hmapped fun _ hs => .inl ?_
    rw [hentry]
    exact hs.resolve_right (by simp [hfills])
  cases hlook with
  | found | inUse | dropped | notMapped | absent | present =>
    exact hquiet id (by simp [Task.isDue, Phase.isDue])
      (by simp [Task.hasDropped, Phase.wantsTable])
  | listed =>
    exact hquiet id (by simp [Task.isDue, Request.acquires])
      (by simp [Task.hasDropped, Request.closes])
  | made hfind =>
    refine hquiet (fun hs => ?_) (by simp [Task.isDue, Phase.isDue])
      (by simp [Task.hasDropped, Request.closes])
    simp [Table.findOrMake, hfind, hs]
  -- a slot that is found empty serves the target from now on
  | @empty name use s hfind hnone =>
    by_cases hname : name = target
    · subst hname
      refine h.enter htask htasks (.inr (.inr ⟨?_, ?_, ?_⟩))
      · simp [Task.isDue, Task.hasDropped, Request.acquires, Request.closes, Phase.isDue]
        omega
      · exact hacc.not_served hlocks htask rfl rfl hfind hnone
      · exact ⟨s, Table.mem_of_find? hfind,
          .inr ⟨c, _, _, getElem?_self_of_enter htask htasks, rfl⟩⟩
    · exact hquiet id (by simp [Task.isDue, Request.acquires, hname])
        (by simp [Task.hasDropped, Request.closes])
  -- a slot that is dropped after a failure serves nobody
  | @evicted name use s reason =>
    by_cases hcurrent : name = target ∧ st.table.find? name = some s
    · obtain ⟨rfl, hfind⟩ := hcurrent
      refine h.keep htask htasks rfl hdeaths (by simp [Task.isDue, Phase.isDue])
        (by simp [Task.hasDropped, Request.closes]) fun hserved => absurd hserved ?_
      exact hacc.not_served hlocks htask rfl rfl hfind hfits.2
    · refine hquiet (fun {s'} hs => ?_) (by simp [Task.isDue, Phase.isDue])
        (by simp [Task.hasDropped, Request.closes])
      simp only [State.enter_table, Table.unmapIfCurrent, Table.isCurrent, decide_eq_true_eq]
      split
      · rename_i hfind
        exact List.mem_filter.2 ⟨hs, by simpa using fun hname => hcurrent ⟨hname.symm, hfind⟩⟩
      · exact hs
  -- a call of close pays for the slot that it drops
  | @unmapped name s hfind =>
    by_cases hname : name = target
    · subst hname
      refine h.enter htask htasks (.inr (.inl ?_))
      have hdropped : st.deaths name =
          State.deaths ({ st with table := st.table.unmap name }.enter c (.emptying s)) name := rfl
      simp [Task.isDue, Task.hasDropped, Request.acquires, Request.closes, Phase.wantsTable]
      omega
    · refine hquiet (fun {s'} hs => ?_) (by simp [Task.isDue, Request.acquires])
        (by simp [Task.hasDropped, Phase.wantsTable])
      exact List.mem_filter.2 ⟨hs, by simpa using fun hne => hname hne.symm⟩
  | unmappedAll =>
    refine h.enter htask htasks (.inr (.inl ?_))
    have hwants : Phase.unmappingAll.wantsTable = true := rfl
    simp [Task.isDue, Task.hasDropped, Request.acquires, Request.closes, hwants]
    omega

theorem Charged.submit (h : Charged target st) (r : Request) : Charged target (st.submit r) := by
  have hdue : Task.isDue target ⟨r, r.begin⟩ = false := by
    cases r <;> simp [Task.isDue, Request.begin, Phase.isDue]
  have hdropped : Task.hasDropped target ⟨r, r.begin⟩ = false := by
    cases r <;> simp [Task.hasDropped, Request.begin, Phase.wantsTable, Request.closes]
  have hserved (hst : st.Served target) : (st.submit r).Served target := by
    obtain ⟨s, hmem, hs⟩ := hst
    refine ⟨s, hmem, hs.imp_right fun hfill => ?_⟩
    obtain ⟨d, r', q, htask, hfills⟩ := hfill
    obtain ⟨hd, -⟩ := List.getElem?_eq_some_iff.1 htask
    exact ⟨d, r', q, (List.getElem?_append_left hd).trans htask, hfills⟩
  have hcounts : (st.submit r).due target = st.due target ∧
      (st.submit r).dropped target = st.dropped target := by
    simp [State.due, State.dropped, List.countP_append, hdue, hdropped]
  refine ⟨?_, fun hnot => ?_⟩ <;> rw [hcounts.1, hcounts.2]
  · exact h.bound
  · exact h.unserved fun hst => hnot (hserved hst)

theorem Charged.congr (h : Charged target st) (hmapped : st'.table.mapped = st.table.mapped)
    (hentries : st'.entries = st.entries) (htasks : st'.tasks = st.tasks)
    (hopened : st'.opened = st.opened) (hevents : st'.events = st.events) : Charged target st' := by
  have hserved (hst : st.Served target) : st'.Served target := by
    obtain ⟨s, hmem, hs⟩ := hst
    refine ⟨s, hmapped ▸ hmem, ?_⟩
    rwa [State.entry_congr hentries, htasks]
  refine ⟨?_, fun hnot => ?_⟩ <;>
    simp only [State.due, State.dropped, State.deaths, htasks, hopened, hevents]
  · exact h.bound
  · exact h.unserved fun hst => hnot (hserved hst)

theorem Reachable.charged (hreach : Reachable st) (target : String) : Charged target st := by
  induction hreach with
  | refl => exact ⟨Nat.zero_le _, fun _ => Nat.le_refl _⟩
  | submit _ r ih => exact ih.submit r
  | step hrun hstep ih =>
    obtain ⟨r, p, htask, hmove⟩ := move_of_step hstep
    obtain ⟨owners, hacc⟩ := Reachable.account hrun
    cases hmove with
    | lockTable => exact ih.congr rfl rfl rfl rfl rfl
    | lock | queue =>
      exact ih.congr rfl (State.entries_modifySlot fun _ => rfl) rfl rfl rfl
    | look hholder hlook =>
      exact (ih.look hacc (Reachable.locks hrun) htask hlook).congr rfl rfl rfl rfl rfl
    | turn hturn => exact ih.turn hacc htask hturn

/-! ## Connections -/

/-- Every connection that was asked for is pending, has opened its handle or has failed its
    acquisition. -/
def Balanced (target : String) (st : State) : Prop :=
  st.connects target = st.opened.count target + st.pending target + st.losses target

theorem Balanced.enter (h : Balanced target st) (htask : st.tasks[c]? = some ⟨r, p⟩)
    (htasks : st'.tasks = st.tasks.modify c fun t => { t with phase := p' })
    (hbalance :
      st'.connects target + st.opened.count target +
          (if Task.isConnecting target ⟨r, p⟩ then 1 else 0) +
          (if Task.hasLost target ⟨r, p⟩ then 1 else 0) =
        st.connects target + st'.opened.count target +
          (if Task.isConnecting target ⟨r, p'⟩ then 1 else 0) +
          (if Task.hasLost target ⟨r, p'⟩ then 1 else 0)) : Balanced target st' := by
  have hpending := countP_enter htask htasks (·.isConnecting target)
  have hlosses := countP_enter htask htasks (·.hasLost target)
  simp only [Balanced, State.pending, State.losses] at h ⊢
  omega

theorem Balanced.submit (h : Balanced target st) (r : Request) : Balanced target (st.submit r) := by
  have hbegin : Task.isConnecting target ⟨r, r.begin⟩ = false ∧
      Task.hasLost target ⟨r, r.begin⟩ = false := by
    cases r <;>
      simp [Task.isConnecting, Task.hasLost, Request.begin, Phase.isConnecting, Phase.failure?]
  have hsame : (st.submit r).connects target = st.connects target := rfl
  simpa [Balanced, State.pending, State.losses, List.countP_append, hbegin, hsame] using h

/-- What the use of a handle comes to is no failure to acquire it. -/
theorem Use.failure?_outcome {use : Use} {answer : Answer} {reply : Reply}
    (h : use.outcome? answer = some reply) : (Phase.finished reply).failure? = none := by
  unfold Use.outcome? at h
  split at h <;> cases h <;> rfl

/-- The use of a handle asks for no connection. -/
theorem State.connects_useHandle (st : State) (c : TaskId) (use : Use) (h : HandleId)
    (target : String) : (st.useHandle c use h).connects target = st.connects target := by
  cases use <;>
    simp [State.useHandle_eq, State.connects, Use.events, List.countP_append, Event.isConnect]

/-- A connection fails its acquisition as refused or as too late. -/
theorem State.isLost_of_failed {timeout : Nat} {answer : Answer} {name : String} {use : Use}
    {s s' : SlotId} {descriptor : Target} {reason : Unavailability}
    (htask : st.tasks[c]? = some ⟨.acquire name use, .connecting s descriptor⟩)
    (hstep : st.step? timeout c answer = some st')
    (hfailed : st'.tasks[c]? = some ⟨r, .evicting s' reason⟩) : reason.isLost = true := by
  simp only [step?, htask, Option.bind_eq_bind, Option.bind_some] at hstep
  cases answer <;> simp only [stepAcquire, reduceCtorEq] at hstep <;> cases hstep <;>
    simp [htask] at hfailed
  · exact hfailed.2.2 ▸ rfl
  · exact hfailed.2.2 ▸ rfl

theorem Balanced.look (h : Balanced target st) (htask : st.tasks[c]? = some ⟨r, p⟩)
    (hlook : Look st c r p p' st') : Balanced target st' := by
  refine h.enter htask hlook.tasks ?_
  have hconnects : st'.connects target = st.connects target := by
    rw [State.connects, State.connects, hlook.events]
  rw [hconnects]
  cases hlook with
  | unmappedAll | listed => simp [Task.isConnecting, Task.hasLost, Request.acquires]
  | _ => simp [Task.isConnecting, Task.hasLost, Phase.isConnecting, Phase.failure?]

theorem Balanced.turn (h : Balanced target st) (hreach : Reachable st)
    (htask : st.tasks[c]? = some ⟨r, p⟩) (hturn : Turn timeout st c r p p' st')
    (hlost : ∀ {s s' descriptor reason}, p = .connecting s descriptor → p' = .evicting s' reason →
      reason.isLost = true) : Balanced target st' := by
  refine h.enter htask hturn.tasks ?_
  -- turns that have nothing to do with connecting
  have hquiet (hevents : st'.connects target = st.connects target)
      (hopened : st'.opened = st.opened)
      (hconnecting : p.isConnecting = false) (hconnecting' : p'.isConnecting = false)
      (hfailure : p'.failure? = p.failure?) :
      st'.connects target + st.opened.count target +
          (if Task.isConnecting target ⟨r, p⟩ then 1 else 0) +
          (if Task.hasLost target ⟨r, p⟩ then 1 else 0) =
        st.connects target + st'.opened.count target +
          (if Task.isConnecting target ⟨r, p'⟩ then 1 else 0) +
          (if Task.hasLost target ⟨r, p'⟩ then 1 else 0) := by
    simp [Task.isConnecting, Task.hasLost, hevents, hopened, hconnecting, hconnecting', hfailure]
  cases hturn with
  -- one more was asked for, and one more task is connecting
  | @asked name use s descriptor =>
    simp [State.connects, Event.isConnect, Task.isConnecting, Task.hasLost, Request.acquires,
      Phase.isConnecting, Phase.failure?, List.countP_append, List.countP_singleton]
    omega
  -- one task less is connecting, and one handle more is open
  | @connected name use s descriptor =>
    simp [State.connects, Event.isConnect, Task.isConnecting, Task.hasLost, Request.acquires,
      Phase.isConnecting, Phase.failure?, List.countP_append, List.count_append,
      List.count_singleton]
    omega
  -- one task less is connecting, and its failure is a loss
  | failed =>
    simp [State.connects, Task.isConnecting, Task.hasLost, Request.acquires,
      Phase.isConnecting, Phase.failure?, hlost rfl rfl]
  | left =>
    obtain ⟨reason, rfl⟩ := hreach.unavailable_of_leaving htask
    exact hquiet rfl rfl rfl rfl rfl
  | used hreply => exact hquiet rfl rfl rfl rfl (Use.failure?_outcome hreply)
  | alive =>
    refine hquiet ((State.connects_useHandle ..).trans ?_) (State.opened_useHandle ..) rfl
      (Use.isConnecting_phase ..) (Use.failure?_phase ..)
    simp [State.connects, State.release, List.countP_append, Event.isConnect]
  | stored =>
    exact hquiet (State.connects_useHandle ..) (State.opened_useHandle ..) rfl
      (Use.isConnecting_phase ..) (Use.failure?_phase ..)
  -- failures without a connection are no losses
  | unknown | inactive =>
    simp [State.connects, Task.isConnecting, Task.hasLost, Request.acquires,
      Phase.isConnecting, Phase.failure?, Unavailability.isLost]
  | dead | emptied | swept =>
    refine hquiet ?_ rfl rfl rfl rfl
    simp [State.connects, State.closeHandle_eq, State.release, State.setEntry, List.countP_append,
      Event.isConnect]
  | sweptEmpty | sweepClosed | counted =>
    simp [State.connects, State.release, Task.isConnecting, Task.hasLost, Request.acquires]
  | _ => exact hquiet rfl rfl rfl rfl rfl

theorem Reachable.balanced (hreach : Reachable st) (target : String) : Balanced target st := by
  induction hreach with
  | refl => rfl
  | submit _ r ih => exact ih.submit r
  | step hrun hstep ih =>
    obtain ⟨r, p, htask, hmove⟩ := move_of_step hstep
    cases hmove with
    | lockTable | lock | queue => exact ih
    | look hholder hlook =>
      have hafter := ih.look htask hlook
      exact hafter
    | turn hturn =>
      refine ih.turn hrun htask hturn ?_
      rintro s s' descriptor reason rfl rfl
      cases hturn
      exact State.isLost_of_failed htask hstep (getElem?_self_of_enter htask rfl)

/-! ## Handles that were returned -/

theorem Run.opened_prefix (h : Run st st') : st.opened <+: st'.opened := by
  induction h with
  | refl => exact List.prefix_rfl
  | submit _ _ ih => exact ih
  | step _ hstep ih =>
    obtain ⟨r, p, -, hmove⟩ := move_of_step hstep
    refine ih.trans ?_
    cases hmove with
    | lockTable | lock | queue => exact List.prefix_rfl
    | look _ hlook => cases hlook <;> exact List.prefix_rfl
    | turn hturn => exact hturn.opened_prefix

/-- Whether an acquisition has returned a handle, at some step on the way to a state. -/
def State.Returned (st : State) (c : TaskId) (target : String) (h : HandleId) : Prop :=
  ∃ before after, Reachable before ∧ before.Returns c target h after ∧ Run after st

/-- A handle that was returned is one of the target's. -/
theorem State.Returned.opened {h : HandleId} (hreturned : st.Returned c target h) :
    st.opened[h]? = some target := by
  obtain ⟨before, after, hreach, hreturns, hrun⟩ := hreturned
  obtain ⟨hopened, hsame, -⟩ := hreturns.isOpen hreach
  have hprefix := hrun.opened_prefix
  rw [hsame] at hprefix
  obtain ⟨hlt, -⟩ := List.getElem?_eq_some_iff.1 hopened
  obtain ⟨rest, hrest⟩ := hprefix
  rwa [← hrest, List.getElem?_append_left hlt]

/-- The step by which an acquisition returns, unless it fails, returns a handle. -/
theorem State.exists_returns {answer : Answer} {use : Use} (hreach : Reachable st)
    (hstep : st.step? timeout c answer = some st')
    (htask : st.tasks[c]? = some ⟨.acquire target use, p⟩) (hover : p.isOver = false)
    (htask' : st'.tasks[c]? = some ⟨.acquire target use, p'⟩) (hover' : p'.isOver = true)
    (hfailure : p'.failure? = none) : ∃ h, st.Returns c target h st' := by
  obtain ⟨r, q, hmoved, hmove⟩ := move_of_step hstep
  cases htask.symm.trans hmoved
  -- the step has brought the task to the phase it is over in
  have hphase {q : Phase} {tasks : List Task}
      (htasks : tasks = st.tasks.modify c fun t => { t with phase := q })
      (hafter : tasks[c]? = some ⟨.acquire target use, p'⟩) : q = p' := by
    cases (getElem?_self_of_enter htask htasks).symm.trans hafter
    rfl
  cases hmove with
  | lockTable | lock | queue =>
    cases htask.symm.trans htask'
    simp [hover] at hover'
  | look hholder hlook =>
    obtain rfl := hphase hlook.tasks htask'
    cases hlook <;> cases hover'
  | turn hturn =>
    obtain rfl := hphase hturn.tasks htask'
    cases hturn with
    | @alive _ _ s hd | @stored _ _ s hd =>
      exact ⟨hd, ⟨timeout, answer, hstep⟩, use, _, htask, hover, htask'⟩
    -- leaving is a failure, and there was none
    | left =>
      obtain ⟨reason, rfl⟩ := hreach.unavailable_of_leaving htask
      cases hfailure
    | used => cases hover
    | _ => cases hover'

/-- A step leaves the other tasks as they are. -/
theorem State.task_of_step {answer : Answer} {d : TaskId}
    (hstep : st.step? timeout d answer = some st') (hne : c ≠ d) :
    st'.tasks[c]? = st.tasks[c]? := by
  obtain ⟨r, p, htask, hmove⟩ := move_of_step hstep
  cases hmove with
  | lockTable | lock | queue => rfl
  | look _ hlook => exact getElem?_of_enter_of_ne htask hlook.tasks hne
  | turn hturn => exact getElem?_of_enter_of_ne htask hturn.tasks hne

theorem State.Returned.run {h : HandleId} (hreturned : st.Returned c target h)
    (hrun : Run st st') : st'.Returned c target h := by
  obtain ⟨before, after, hreach, hreturns, hrun'⟩ := hreturned
  exact ⟨before, after, hreach, hreturns, hrun'.trans hrun⟩

/-- An acquisition that is over has returned a handle, unless it has failed. -/
theorem Reachable.exists_returned (hreach : Reachable st) {use : Use}
    (htask : st.tasks[c]? = some ⟨.acquire target use, p⟩) (hover : p.isOver = true)
    (hfailure : p.failure? = none) : ∃ h, st.Returned c target h := by
  induction hreach generalizing p with
  | refl => simp at htask
  | @submit st hrun r ih =>
    rcases Nat.lt_or_ge c st.tasks.length with hc | hc
    · rw [State.submit_tasks, List.getElem?_append_left hc] at htask
      obtain ⟨h, hreturned⟩ := ih htask hover hfailure
      exact ⟨h, hreturned.run (.submit (.refl _) r)⟩
    · rw [State.submit_tasks, List.getElem?_append_right hc] at htask
      obtain ⟨rfl, rfl⟩ := Task.mk.inj (List.mem_singleton.1 (List.mem_of_getElem? htask))
      cases hover
  | @step st st' timeout d answer hrun hstep ih =>
    have hlater : Run st st' := .step (.refl _) hstep
    by_cases hcd : c = d
    · subst hcd
      have hrequest := congrArg (·[c]?) (State.requests_of_step hstep)
      simp only [List.getElem?_map, htask, Option.map_some] at hrequest
      obtain ⟨⟨r, q⟩, htask₀, rfl⟩ := Option.map_eq_some_iff.1 hrequest.symm
      cases hq : q.isOver with
      | false =>
        obtain ⟨h, hreturns⟩ := State.exists_returns hrun hstep htask₀ hq htask hover hfailure
        exact ⟨h, st, st', hrun, hreturns, .refl _⟩
      | true =>
        -- a task that was over before the step has used its handle since
        cases q with
        | «using» h =>
          obtain ⟨h, hreturned⟩ := ih htask₀ rfl rfl
          exact ⟨h, hreturned.run hlater⟩
        | finished reply => simp [State.step?, htask₀, State.stepAcquire] at hstep
        | _ => cases hq
    · obtain ⟨h, hreturned⟩ := ih ((State.task_of_step hstep hcd).symm.trans htask) hover hfailure
      exact ⟨h, hreturned.run hlater⟩

/-! ## Single flight -/

theorem State.pending_le_due (st : State) (target : String) :
    st.pending target ≤ st.due target := by
  refine List.countP_mono_left fun t _ => ?_
  obtain ⟨r, p⟩ := t
  cases p <;> simp [Task.isConnecting, Task.isDue, Phase.isConnecting, Phase.isDue]

theorem State.dropped_le_closings (st : State) (target : String) :
    st.dropped target ≤ st.closings target :=
  List.countP_mono_left fun t _ => by simp +contextual [Task.hasDropped]

/-- Where no connection has failed, an acquisition that has was told that the registry has no active
    target of the name. -/
theorem State.isLost_of_losses {use : Use} {reason : Unavailability}
    (hlosses : st.losses target = 0) (htask : st.tasks[c]? = some ⟨.acquire target use, p⟩)
    (hfailure : p.failure? = some reason) : reason.isLost = false := by
  have hnot := List.countP_eq_zero.1 hlosses _ (List.mem_of_getElem? htask)
  simpa [Task.hasLost, Request.acquires, hfailure] using hnot

/-- In every state that calls of the cache can come to, in any order of their steps: a target has at
    most one handle opened for it, and one more for each call to close it or all and for each time
    that a handle of it was found dead. As long as there was none of these, and no connection to the
    target has failed, at most one connection to it was asked for, and one handle is what all
    acquisitions of the target have returned that are over, but for those that were told that the
    registry has no active target of the name. -/
theorem Reachable.single_flight (hreach : Reachable st) (target : String) :
    st.opened.count target ≤ 1 + st.closings target + st.deaths target ∧
    (st.closings target = 0 → st.deaths target = 0 → st.losses target = 0 →
      st.connects target ≤ 1 ∧
      ∃ h, ∀ c use p, st.tasks[c]? = some ⟨.acquire target use, p⟩ → p.isOver = true →
        (∃ reason, p.failure? = some reason ∧ reason.isLost = false) ∨
          (st.connects target = 1 ∧ st.Returned c target h ∧
            ∀ h', st.Returned c target h' → h' = h)) := by
  have hbound := (hreach.charged target).bound
  have hdropped := st.dropped_le_closings target
  refine ⟨by omega, fun hclosings hdeaths hlosses => ?_⟩
  have hbalance := hreach.balanced target
  have hpending := st.pending_le_due target
  rw [Balanced] at hbalance
  have hone : st.opened.count target ≤ 1 := by omega
  refine ⟨by omega, ?_⟩
  -- the handle that was opened for the target, if any
  refine ⟨st.opened.idxOf target, fun c use p htask hover => ?_⟩
  cases hfailure : p.failure? with
  | some reason => exact .inl ⟨reason, rfl, State.isLost_of_losses hlosses htask hfailure⟩
  | none =>
    have hunique {h : HandleId} (hreturned : st.Returned c target h) :
        h = st.opened.idxOf target := by
      have hmem := List.mem_of_getElem? hreturned.opened
      exact eq_of_countP_le_one hone hreturned.opened (List.getElem?_idxOf hmem) (by simp) (by simp)
    obtain ⟨h, hreturned⟩ := hreach.exists_returned htask hover hfailure
    have hopened := List.count_pos_iff.2 (List.mem_of_getElem? hreturned.opened)
    exact .inr ⟨by omega, hunique hreturned ▸ hreturned, fun h' => hunique⟩

end

/-- A cache whose first two calls came at the same time: the second has waited for the slot while
    the first has filled it. -/
def State.shared : State where
  table := { mapped := [("a", 0)], slots := [{ entry := some 0 }] }
  tasks := [⟨.acquire "a" .keep, .finished (.handle 0)⟩,
    ⟨.acquire "a" .keep, .finished (.handle 0)⟩]
  opened := ["a"]
  events := [(0, .connect "a" ⟨"h", none, "n", true⟩ 100), (0, .opened 0), (1, .probed 0 true)]

theorem reachable_shared : Reachable .shared := by
  have hsteps : ((State.submit {} (.acquire "a" .keep)).submit (.acquire "a" .keep)).steps? 100
      (State.asking 0 ⟨"h", none, "n", true⟩ ++ List.replicate 3 (1, .proceed) ++
        [(0, .connected), (0, .proceed)] ++ List.replicate 3 (1, .proceed) ++ [(1, .alive true)]) =
      some .shared := rfl
  exact (((Run.refl {}).submit _).submit _).trans (.of_steps hsteps)

theorem single_flight_shared :
    State.shared.opened.count "a" ≤ 1 + 0 + 0 ∧ State.shared.connects "a" = 1 ∧
      ∃ h, State.shared.Returned 0 "a" h ∧ State.shared.Returned 1 "a" h := by
  obtain ⟨hbound, hquiet⟩ := reachable_shared.single_flight "a"
  obtain ⟨-, h, hover⟩ := hquiet (by decide) (by decide) (by decide)
  obtain ⟨reason, hreason, -⟩ | ⟨hconnects, hfirst, -⟩ := hover 0 .keep _ rfl rfl
  · cases hreason
  · obtain ⟨reason, hreason, -⟩ | ⟨-, hsecond, -⟩ := hover 1 .keep _ rfl rfl
    · cases hreason
    · exact ⟨hbound, hconnects, h, hfirst, hsecond⟩

end ShellQuery.Cache
