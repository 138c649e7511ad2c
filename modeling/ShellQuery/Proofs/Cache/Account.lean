/-
  ShellQuery.Proofs.Cache.Account

  Where every handle of the cache is. The invariant (`Account`) says of each slot which target it
  was made for, of each task what it knows of the slot it deals with (`Fits`), and of each handle
  that the slots that hold it, the tasks that have just opened it and the calls of close on it are
  one in all. A slot that holds a handle, or is about to, is mapped or will be emptied (`Tracked`);
  a mapped slot that is empty has a task that fills it or drops it.

  What a step does to all this is its `Effect`. Most steps touch no handle (`Effect.quiet`).
-/
import ShellQuery.Proofs.Cache.Locks

namespace ShellQuery.Cache

/-! ## Phases and handles -/

namespace Phase

/-- The slots that a task will empty. -/
def pending : Phase → List SlotId
  | .emptying s => [s]
  | .sweeping pending | .sweepClosing _ _ pending => pending
  | _ => []

/-- The slot that a task will put a handle in or, where it cannot, will drop. -/
def tends? : Phase → Option SlotId
  | .entering s | .checking s | .discarding s _ | .resolving s | .connecting s _ | .storing s _
  | .evicting s _ => some s
  | _ => none

/-- The handle that a task has opened and not yet put in its slot. -/
def fresh? : Phase → Option HandleId
  | .storing _ h => some h
  | _ => none

/-- The handle that a task has taken out of a slot and now waits for to be closed. -/
def taken? : Phase → Option HandleId
  | .discarding _ h | .closing h | .sweepClosing _ h _ => some h
  | _ => none

@[simp] theorem pending_sweep (pending : List SlotId) : (sweep pending).pending = pending := by
  cases pending <;> rfl

@[simp] theorem tends?_sweep (pending : List SlotId) : (sweep pending).tends? = none := by
  cases pending <;> rfl

@[simp] theorem fresh?_sweep (pending : List SlotId) : (sweep pending).fresh? = none := by
  cases pending <;> rfl

@[simp] theorem taken?_sweep (pending : List SlotId) : (sweep pending).taken? = none := by
  cases pending <;> rfl

@[simp] theorem pending_count (found : Nat) (pending : List SlotId) :
    (count found pending).pending = [] := by
  cases pending <;> rfl

@[simp] theorem fresh?_count (found : Nat) (pending : List SlotId) :
    (count found pending).fresh? = none := by
  cases pending <;> rfl

@[simp] theorem taken?_count (found : Nat) (pending : List SlotId) :
    (count found pending).taken? = none := by
  cases pending <;> rfl

end Phase

namespace Use

@[simp] theorem pending_phase (use : Use) (h : HandleId) : (use.phase h).pending = [] := by
  cases use <;> rfl

@[simp] theorem fresh?_phase (use : Use) (h : HandleId) : (use.phase h).fresh? = none := by
  cases use <;> rfl

@[simp] theorem taken?_phase (use : Use) (h : HandleId) : (use.phase h).taken? = none := by
  cases use <;> rfl

end Use

/-! ## Slots and events -/

/-- Whether an event is that a handle is closed. -/
def Event.closes (h : HandleId) : Event → Bool
  | .closed h' => h' = h
  | _ => false

namespace State

/-- What the slots hold. -/
def entries (st : State) : List (Option HandleId) :=
  st.table.slots.map Slot.entry

/-- What a slot holds. -/
def entry (st : State) (s : SlotId) : Option HandleId :=
  (st.table.slot s).entry

/-- How often a handle was closed. -/
def closes (st : State) (h : HandleId) : Nat :=
  st.events.countP fun e => e.2.closes h

/-- Whether some target is mapped to a slot. -/
def Mapped (st : State) (s : SlotId) : Prop :=
  ∃ target, (target, s) ∈ st.table.mapped

/-- Whether a task will empty a slot. -/
def Doomed (st : State) (s : SlotId) : Prop :=
  ∃ (c : TaskId) (task : Task), st.tasks[c]? = some task ∧ s ∈ task.phase.pending

/-- Whether a slot can still be found, or a task will empty it. -/
def Tracked (st : State) (s : SlotId) : Prop :=
  st.Mapped s ∨ st.Doomed s

theorem entry_eq (st : State) (s : SlotId) : st.entry s = st.entries[s]?.getD none := by
  cases h : st.table.slots[s]? <;> simp [entry, entries, Table.slot, h]

theorem getElem?_entries {st : State} {s : SlotId} (hs : s < st.table.slots.length) :
    st.entries[s]? = some (st.entry s) := by
  simp [entry, entries, Table.slot, hs]

theorem entry_congr {st st' : State} (h : st'.entries = st.entries) (s : SlotId) :
    st'.entry s = st.entry s := by
  rw [entry_eq, entry_eq, h]

theorem length_entries (st : State) : st.entries.length = st.table.slots.length := by
  simp [entries]

theorem entry_of_set_of_ne {st st' : State} {s s' : SlotId} {e : Option HandleId}
    (h : st'.entries = st.entries.set s e) (hs : s ≠ s') : st'.entry s' = st.entry s' := by
  rw [entry_eq, entry_eq, h, List.getElem?_set_ne hs]

theorem entry_of_set_self {st st' : State} {s : SlotId} {e : Option HandleId}
    (h : st'.entries = st.entries.set s e) (hs : s < st.table.slots.length) : st'.entry s = e := by
  rw [entry_eq, h, List.getElem?_set_self (by rwa [length_entries])]
  rfl

theorem entries_modifySlot {st : State} {s : SlotId} {f : Slot → Slot}
    (hf : ∀ slot, (f slot).entry = slot.entry) : (st.modifySlot s f).entries = st.entries := by
  refine List.ext_getElem? fun i => ?_
  by_cases hs : s = i <;> cases h : st.table.slots[i]? <;>
    simp [entries, modifySlot, Table.modifySlot, hs, h, hf]

@[simp] theorem entries_release (st : State) (s : SlotId) : (st.release s).entries = st.entries :=
  entries_modifySlot Slot.entry_release

@[simp] theorem entries_setEntry (st : State) (s : SlotId) (e : Option HandleId) :
    (st.setEntry s e).entries = st.entries.set s e := by
  refine List.ext_getElem? fun i => ?_
  rw [List.getElem?_set]
  by_cases hs : s = i
  · subst hs
    by_cases h : s < st.table.slots.length <;>
      simp [entries, setEntry, modifySlot, Table.modifySlot, h]
  · simp [entries, setEntry, modifySlot, Table.modifySlot, hs]

@[simp] theorem closes_emit (st : State) (c : TaskId) (e : Event) (h : HandleId) :
    (st.emit c e).closes h = st.closes h + if e.closes h then 1 else 0 := by
  simp [closes, List.countP_append, List.countP_cons]

theorem closes_closeHandle (st : State) (c : TaskId) (h h' : HandleId) (p : Phase) :
    (st.closeHandle c h p).closes h' = st.closes h' + if h = h' then 1 else 0 := by
  refine (closes_emit st c (.closed h) h').trans ?_
  simp [Event.closes]

theorem entries_useHandle (st : State) (c : TaskId) (use : Use) (h : HandleId) :
    (st.useHandle c use h).entries = st.entries := by
  rw [useHandle_eq]
  rfl

theorem opened_useHandle (st : State) (c : TaskId) (use : Use) (h : HandleId) :
    (st.useHandle c use h).opened = st.opened := by
  rw [useHandle_eq]
  rfl

/-- The use of a handle does not close it. -/
theorem closes_useHandle (st : State) (c : TaskId) (use : Use) (h h' : HandleId) :
    (st.useHandle c use h).closes h' = st.closes h' := by
  cases use <;>
    simp [useHandle_eq, closes, Use.events, List.countP_append, Event.closes]

end State

/-! ## Finding what is mapped -/

namespace Table

theorem mem_of_find? {t : Table} {target : String} {s : SlotId} (h : t.find? target = some s) :
    (target, s) ∈ t.mapped := by
  obtain ⟨front, back, hmapped, -⟩ := List.lookup_eq_some_iff.1 h
  simp [hmapped]

theorem find?_of_mem {t : Table} {target : String} {s : SlotId}
    (hkeys : (t.mapped.map Prod.fst).Nodup) (h : (target, s) ∈ t.mapped) :
    t.find? target = some s := by
  obtain ⟨front, back, hmapped⟩ := List.append_of_mem h
  refine List.lookup_eq_some_iff.2 ⟨front, back, hmapped, fun e he => ?_⟩
  rw [hmapped, List.map_append, List.map_cons] at hkeys
  have hne := (List.nodup_append.1 hkeys).2.2 e.1 (List.mem_map_of_mem he) target (.head _)
  simpa using hne.symm

end Table

/-! ## Counting -/

/-- How a change of one element changes how many are of a kind. -/
theorem countP_modify {α : Type} {q : α → Bool} {f : α → α} {l : List α} {i : Nat} {a : α}
    (h : l[i]? = some a) :
    (l.modify i f).countP q + (if q a then 1 else 0) = l.countP q + (if q (f a) then 1 else 0) := by
  induction l generalizing i with
  | nil => simp at h
  | cons b l ih =>
    cases i with
    | zero =>
      cases h
      simp only [List.modify_zero_cons, List.countP_cons]
      omega
    | succ i =>
      have := ih (by simpa using h)
      simp only [List.modify_succ_cons, List.countP_cons]
      omega

theorem count_set {l : List (Option HandleId)} {s : SlotId} {e : Option HandleId}
    (hs : l[s]? = some e) (e' : Option HandleId) (h : HandleId) :
    (l.set s e').count (some h) + (if e = some h then 1 else 0) =
      l.count (some h) + (if e' = some h then 1 else 0) := by
  have := countP_modify (q := (· == some h)) (f := fun _ => e') hs
  simpa [List.count, List.modify_eq_set] using this

/-! ## The invariant -/

/-- What a task knows of the slots it deals with, by its phase. `owners` are the targets that the
    slots were made for. -/
def Fits (owners : List String) (st : State) : Request → Phase → Prop
  | .acquire target _, .entering s | .acquire target _, .checking s => owners[s]? = some target
  | .acquire target _, .probing s h =>
    owners[s]? = some target ∧ st.entry s = some h ∧ st.Tracked s
  | .acquire target _, .discarding s _ | .acquire target _, .resolving s
  | .acquire target _, .connecting s _ =>
    owners[s]? = some target ∧ st.entry s = none ∧ st.Tracked s
  | .acquire target _, .storing s h =>
    owners[s]? = some target ∧ st.entry s = none ∧ st.Tracked s ∧ st.opened[h]? = some target
  | .acquire target _, .evicting s _ => owners[s]? = some target ∧ st.entry s = none
  | .acquire _ _, .finding | .acquire _ _, .leaving _ _ | .acquire _ _, .using _
  | .acquire _ _, .finished _ => True
  | .close target, .emptying s => owners[s]? = some target ∧ ¬ st.Mapped s
  | .close _, .unmapping | .close _, .closing _ | .close _, .finished _ => True
  | .closeAll, .sweeping pending | .closeAll, .sweepClosing _ _ pending =>
    ∀ s ∈ pending, s < owners.length ∧ ¬ st.Mapped s
  | .closeAll, .unmappingAll | .closeAll, .finished _ => True
  | .contains _, .looking | .contains _, .peeking _ | .contains _, .finished _ => True
  | .count, .listing | .count, .counting _ _ | .count, .finished _ => True
  | _, _ => False

/-- Where the handles of a state are. `owners` are the targets that the slots were made for. -/
structure Account (owners : List String) (st : State) : Prop where
  length : owners.length = st.entries.length
  owned : ∀ {target : String} {s : SlotId}, (target, s) ∈ st.table.mapped → owners[s]? = some target
  keys : (st.table.mapped.map Prod.fst).Nodup
  fits : ∀ {c : TaskId} {r p}, st.tasks[c]? = some ⟨r, p⟩ → Fits owners st r p
  cached : ∀ {s : SlotId} {h : HandleId}, st.entry s = some h →
    ∃ target, owners[s]? = some target ∧ st.opened[h]? = some target
  tracked : ∀ {s h}, st.entry s = some h → st.Tracked s
  tended : ∀ {s}, st.Mapped s → st.entry s = none →
    ∃ (c : TaskId) (task : Task), st.tasks[c]? = some task ∧ task.phase.tends? = some s
  balance : ∀ h, st.entries.count (some h) + st.tasks.countP (·.phase.fresh? = some h) +
    st.closes h = if h < st.opened.length then 1 else 0
  taken : ∀ h, st.tasks.countP (·.phase.taken? = some h) ≤ st.closes h

/-! ## The effect of a step -/

/-- What a step of a task from phase `p` to phase `p'` does to slots and handles. Only what the
    slot that the task has holds may change; a handle appears there only if it was fresh, and what
    leaves the table is empty or will be emptied. -/
structure Effect (owners owners' : List String) (st : State) (r : Request) (p p' : Phase)
    (st' : State) : Prop where
  length : owners'.length = st'.entries.length
  owner : ∀ {s : SlotId} {target : String}, owners[s]? = some target → owners'[s]? = some target
  owned : ∀ {target : String} {s : SlotId}, (target, s) ∈ st'.table.mapped → owners'[s]? = some target
  keys : (st'.table.mapped.map Prod.fst).Nodup
  unmapped : ∀ {s : SlotId}, s < owners.length → ¬ st.Mapped s → ¬ st'.Mapped s
  opened : ∀ {h : HandleId} {target : String}, st.opened[h]? = some target → st'.opened[h]? = some target
  entry : ∀ {s}, p.slot? ≠ some s → st'.entry s = st.entry s
  cached : ∀ {s h}, st'.entry s = some h → st.entry s = some h ∨ p = .storing s h
  kept : ∀ {s h}, st.entry s = some h → st'.entry s = some h ∨ st.closes h < st'.closes h
  tracked : ∀ {s}, st.Mapped s ∨ s ∈ p.pending →
    st'.Mapped s ∨ s ∈ p'.pending ∨ (st'.entry s = none ∧ p.slot? = some s)
  tended : ∀ {s}, st'.Mapped s → st'.entry s = none →
    p'.tends? = some s ∨ (st.Mapped s ∧ st.entry s = none ∧ p.tends? ≠ some s)
  balance : ∀ h, st'.entries.count (some h) + (if p'.fresh? = some h then 1 else 0) +
      st'.closes h + (if h < st.opened.length then 1 else 0) =
    st.entries.count (some h) + (if p.fresh? = some h then 1 else 0) +
      st.closes h + (if h < st'.opened.length then 1 else 0)
  taken : ∀ h, st.closes h + (if p'.taken? = some h then 1 else 0) ≤
    st'.closes h + (if p.taken? = some h then 1 else 0)
  fits : Fits owners' st' r p'

section
variable {owners owners' : List String} {st st' : State} {c d : TaskId} {r r' : Request}
  {p p' q : Phase}

/-- What is known to a task stays true where the slot it has holds what it held, and no other slot
    comes back into the table. -/
theorem Fits.mono (h : Fits owners st r q)
    (howner : ∀ {s : SlotId} {target : String}, owners[s]? = some target →
      owners'[s]? = some target)
    (hopened : ∀ {h : HandleId} {target : String}, st.opened[h]? = some target →
      st'.opened[h]? = some target)
    (hunmapped : ∀ {s : SlotId}, s < owners.length → ¬ st.Mapped s → ¬ st'.Mapped s)
    (hentry : ∀ s, q.holds? = some s → st'.entry s = st.entry s)
    (htracked : ∀ s, q.holds? = some s → st.Tracked s → st'.Tracked s) :
    Fits owners' st' r q := by
  have hentry {s : SlotId} (hs : q.holds? = some s) {e : Option HandleId} (he : st.entry s = e) :
      st'.entry s = e :=
    (hentry s hs).trans he
  have hpending {s : SlotId} (hs : s < owners.length ∧ ¬ st.Mapped s) :
      s < owners'.length ∧ ¬ st'.Mapped s := by
    obtain ⟨target, htarget⟩ : ∃ target, owners[s]? = some target := by simp [hs.1]
    obtain ⟨hlt, -⟩ := List.getElem?_eq_some_iff.1 (howner htarget)
    exact ⟨hlt, hunmapped hs.1 hs.2⟩
  -- a phase that its request never comes to has nothing known of it
  cases r with
  | acquire target use =>
    cases q with
    | entering | checking => exact howner h
    | probing s _ => exact ⟨howner h.1, hentry rfl h.2.1, htracked s rfl h.2.2⟩
    | discarding s _ | resolving s | connecting s _ =>
      exact ⟨howner h.1, hentry rfl h.2.1, htracked s rfl h.2.2⟩
    | storing s _ =>
      exact ⟨howner h.1, hentry rfl h.2.1, htracked s rfl h.2.2.1, hopened h.2.2.2⟩
    | evicting => exact ⟨howner h.1, hentry rfl h.2⟩
    | finding | leaving | «using» | finished => trivial
    | _ => exact h.elim
  | close target =>
    cases q with
    | emptying s =>
      obtain ⟨hlt, -⟩ := List.getElem?_eq_some_iff.1 h.1
      exact ⟨howner h.1, hunmapped hlt h.2⟩
    | unmapping | closing | finished => trivial
    | _ => exact h.elim
  | closeAll =>
    cases q with
    | sweeping | sweepClosing => exact fun s hs => hpending (h s hs)
    | unmappingAll | finished => trivial
    | _ => exact h.elim
  | contains target =>
    cases q with
    | looking | peeking | finished => trivial
    | _ => exact h.elim
  | count =>
    cases q with
    | listing | counting | finished => trivial
    | _ => exact h.elim

namespace Account

/-- A tracked slot stays tracked, unless the task that goes on has emptied it. -/
theorem tracked_of_effect (htask : st.tasks[c]? = some ⟨r, p⟩)
    (htasks : st'.tasks = st.tasks.modify c fun t => { t with phase := p' })
    (heffect : Effect owners owners' st r p p' st') {s : SlotId} (h : st.Tracked s)
    (hs : st'.entry s = none → p.slot? ≠ some s) : st'.Tracked s := by
  have hc (hmem : st.Mapped s ∨ s ∈ p.pending) : st'.Tracked s := by
    rcases heffect.tracked hmem with hmapped | hpending | ⟨hnone, hslot⟩
    · exact .inl hmapped
    · exact .inr ⟨c, ⟨r, p'⟩, getElem?_self_of_enter htask htasks, hpending⟩
    · exact absurd hslot (hs hnone)
  rcases h with hmapped | ⟨d, task, htask', hpending⟩
  · exact hc (.inl hmapped)
  · by_cases hd : d = c
    · subst hd
      cases htask.symm.trans htask'
      exact hc (.inr hpending)
    · exact .inr ⟨d, task, (getElem?_of_enter_of_ne htask htasks hd).trans htask', hpending⟩

/-- The account is kept by a step with an effect. -/
theorem of_effect (h : Account owners st) (hlocks : Locks st) (htask : st.tasks[c]? = some ⟨r, p⟩)
    (harrived : st.Arrived c p)
    (htasks : st'.tasks = st.tasks.modify c fun t => { t with phase := p' })
    (heffect : Effect owners owners' st r p p' st') : Account owners' st' where
  length := heffect.length
  owned := heffect.owned
  keys := heffect.keys
  fits {d r' q} htask' := by
    by_cases hd : d = c
    · subst hd
      cases (getElem?_self_of_enter htask htasks).symm.trans htask'
      exact heffect.fits
    · have htask'' := (getElem?_of_enter_of_ne htask htasks hd).symm.trans htask'
      -- a slot that another task has is not the one that changes
      have hother (s : SlotId) (hs : q.holds? = some s) : p.slot? ≠ some s :=
        fun hslot => hd (hlocks.holds_unique htask harrived hslot htask'' hs)
      exact (h.fits htask'').mono heffect.owner heffect.opened heffect.unmapped
        (fun s hs => heffect.entry (hother s hs))
        fun s hs htr => tracked_of_effect htask htasks heffect htr fun _ => hother s hs
  cached {s hd} he := by
    rcases heffect.cached he with he | rfl
    · obtain ⟨target, howner, hopened⟩ := h.cached he
      exact ⟨target, heffect.owner howner, heffect.opened hopened⟩
    · cases r with
      | acquire target use =>
        obtain ⟨howner, -, -, hopened⟩ := h.fits htask
        exact ⟨target, heffect.owner howner, heffect.opened hopened⟩
      | _ => exact (h.fits htask).elim
  tracked {s hd} he := by
    have htr : st.Tracked s := by
      rcases heffect.cached he with he | rfl
      · exact h.tracked he
      · cases r with
        | acquire target use => exact (h.fits htask).2.2.1
        | _ => exact (h.fits htask).elim
    exact tracked_of_effect htask htasks heffect htr fun hnone => by simp [hnone] at he
  tended {s} hmapped hnone := by
    rcases heffect.tended hmapped hnone with htends | ⟨hmapped, hnone, hne⟩
    · exact ⟨c, ⟨r, p'⟩, getElem?_self_of_enter htask htasks, htends⟩
    · obtain ⟨d, task, htask', htends⟩ := h.tended hmapped hnone
      have hd : d ≠ c := by
        rintro rfl
        cases htask.symm.trans htask'
        exact hne htends
      exact ⟨d, task, (getElem?_of_enter_of_ne htask htasks hd).trans htask', htends⟩
  balance hd := by
    have hbefore := h.balance hd
    have heff := heffect.balance hd
    have htasks' := countP_modify (q := (·.phase.fresh? = some hd))
      (f := fun t => { t with phase := p' }) htask
    rw [← htasks] at htasks'
    simp only [decide_eq_true_eq] at htasks'
    omega
  taken hd := by
    have hbefore := h.taken hd
    have heff := heffect.taken hd
    have htasks' := countP_modify (q := (·.phase.taken? = some hd))
      (f := fun t => { t with phase := p' }) htask
    rw [← htasks] at htasks'
    simp only [decide_eq_true_eq] at htasks'
    omega

/-- A task that empties no slot leaves tracked what is tracked. -/
theorem tracked_enter (htask : st.tasks[c]? = some ⟨r, p⟩)
    (htasks : st'.tasks = st.tasks.modify c fun t => { t with phase := p' })
    (hmapped : st'.table.mapped = st.table.mapped) (hp : p.pending = []) {s : SlotId}
    (h : st.Tracked s) : st'.Tracked s := by
  rcases h with ⟨target, hmem⟩ | ⟨d, task, htask', hpending⟩
  · exact .inl ⟨target, hmapped ▸ hmem⟩
  · have hd : d ≠ c := by
      rintro rfl
      cases htask.symm.trans htask'
      simp [hp] at hpending
    exact .inr ⟨d, task, (getElem?_of_enter_of_ne htask htasks hd).trans htask', hpending⟩

/-- The effect of a step that touches no handle and at most drops slots from the table. -/
theorem drops (h : Account owners st) (hentries : st'.entries = st.entries)
    (hmapped : st'.table.mapped.Sublist st.table.mapped) (hopened : st'.opened = st.opened)
    (hcloses : ∀ h, st'.closes h = st.closes h) (hfresh : p.fresh? = none)
    (hfresh' : p'.fresh? = none) (htaken' : p'.taken? = none)
    (hleft : ∀ s, st.Mapped s ∨ s ∈ p.pending →
      st'.Mapped s ∨ s ∈ p'.pending ∨ (st.entry s = none ∧ p.slot? = some s))
    (htends : ∀ s, p.tends? = some s →
      p'.tends? = some s ∨ st.entry s ≠ none ∨ ¬ st'.Mapped s)
    (hfits : Fits owners st' r p') : Effect owners owners st r p p' st' where
  length := hentries ▸ h.length
  owner := id
  owned hmem := h.owned (hmapped.mem hmem)
  keys := (hmapped.map _).nodup h.keys
  unmapped _ hs := fun ⟨target, hmem⟩ => hs ⟨target, hmapped.mem hmem⟩
  opened ho := hopened ▸ ho
  entry _ := State.entry_congr hentries _
  cached he := .inl (State.entry_congr hentries _ ▸ he)
  kept he := .inl ((State.entry_congr hentries _).trans he)
  tracked {s} hs := State.entry_congr hentries s ▸ hleft s hs
  tended {s} hs hnone := by
    obtain ⟨target, hmem⟩ := hs
    have hnone : st.entry s = none := State.entry_congr hentries _ ▸ hnone
    by_cases htend : p.tends? = some s
    · rcases htends s htend with htend | hne | hs'
      · exact .inl htend
      · exact absurd hnone hne
      · exact absurd ⟨target, hmem⟩ hs'
    · exact .inr ⟨⟨target, hmapped.mem hmem⟩, hnone, htend⟩
  balance hd := by simp [hentries, hcloses, hfresh, hfresh', hopened]
  taken hd := by simp [hcloses, htaken']
  fits := hfits

/-- The effect of a step that touches neither the table's targets nor any handle. -/
theorem quiet (h : Account owners st) (hentries : st'.entries = st.entries)
    (hmapped : st'.table.mapped = st.table.mapped) (hopened : st'.opened = st.opened)
    (hcloses : ∀ h, st'.closes h = st.closes h) (hfresh : p.fresh? = none)
    (hfresh' : p'.fresh? = none) (htaken' : p'.taken? = none)
    (hpending : ∀ s ∈ p.pending, s ∈ p'.pending ∨ (st.entry s = none ∧ p.slot? = some s))
    (htends : ∀ s, p.tends? = some s →
      p'.tends? = some s ∨ st.entry s ≠ none ∨ ¬ st.Mapped s)
    (hfits : Fits owners st' r p') : Effect owners owners st r p p' st' := by
  have hsame (s : SlotId) : st'.Mapped s ↔ st.Mapped s := by simp [State.Mapped, hmapped]
  refine h.drops hentries (hmapped ▸ .refl _) hopened hcloses hfresh hfresh' htaken' ?_ ?_ hfits
  · intro s hs
    rcases hs with hs | hs
    · exact .inl ((hsame s).2 hs)
    · exact .inr (hpending s hs)
  · exact fun s hs => (htends s hs).imp_right (.imp_right (mt (hsame s).1))

/-- The effect of a step that takes a handle out of a slot and closes it. -/
theorem takes (h : Account owners st) {s : SlotId} {taken : HandleId}
    (hentry : st.entry s = some taken) (hslot : p.slot? = some s)
    (hentries : st'.entries = st.entries.set s none)
    (hmapped : st'.table.mapped = st.table.mapped) (hopened : st'.opened = st.opened)
    (hcloses : ∀ h, st'.closes h = st.closes h + if taken = h then 1 else 0)
    (hfresh : p.fresh? = none) (hfresh' : p'.fresh? = none) (htaken' : p'.taken? = some taken)
    (hpending : ∀ s' ∈ p.pending, s' ∈ p'.pending ∨ s = s') (htends : p.tends? = none)
    (htends' : p'.tends? = some s ∨ ¬ st.Mapped s) (hfits : Fits owners st' r p') :
    Effect owners owners st r p p' st' := by
  have hlt := Table.lt_of_entry hentry
  have hself : st'.entry s = none := State.entry_of_set_self hentries hlt
  refine ⟨by simpa [hentries] using h.length, id, fun hmem => h.owned (hmapped ▸ hmem),
    hmapped ▸ h.keys, fun _ hs => by simpa [State.Mapped, hmapped] using hs, fun ho => hopened ▸ ho,
    fun {s'} hs' => ?_, fun {s' hd} he => ?_, fun {s' hd} he => ?_, fun {s'} hs' => ?_,
    fun {s'} hs' hnone => ?_, fun hd => ?_, fun hd => ?_, hfits⟩
  · exact State.entry_of_set_of_ne hentries fun hs => hs' (hs ▸ hslot)
  · -- what an entry holds now it held before, and the slot taken from holds nothing
    by_cases hs : s = s'
    · subst hs
      simp [hself] at he
    · exact .inl (State.entry_of_set_of_ne hentries hs ▸ he)
  · by_cases hs : s = s'
    · subst hs
      cases hentry.symm.trans he
      exact .inr (by simp [hcloses])
    · exact .inl ((State.entry_of_set_of_ne hentries hs).trans he)
  · rcases hs' with ⟨target, hmem⟩ | hs'
    · exact .inl ⟨target, hmapped ▸ hmem⟩
    · rcases hpending s' hs' with hs' | rfl
      · exact .inr (.inl hs')
      · exact .inr (.inr ⟨hself, hslot⟩)
  · -- a slot left empty is the one taken from, which the caller tends or nobody can find
    have hs' : st.Mapped s' := by simpa [State.Mapped, hmapped] using hs'
    by_cases hs : s = s'
    · subst hs
      exact .inl (htends'.resolve_right fun hne => hne hs')
    · exact .inr ⟨hs', State.entry_of_set_of_ne hentries hs ▸ hnone, by simp [htends]⟩
  · -- one entry less and one close more
    have hcount := count_set (State.getElem?_entries hlt) none hd
    simp only [hentries, hcloses, hfresh, hfresh', hopened, hentry, Option.some.injEq, reduceCtorEq,
      if_false] at hcount ⊢
    omega
  · simp only [hcloses, htaken', Option.some.injEq]
    omega

theorem fits_usePhase {target : String} {use : Use} {h : HandleId} :
    Fits owners st (.acquire target use) (use.phase h) := by
  cases use <;> trivial

theorem fits_sweep {pending : List SlotId}
    (h : ∀ s ∈ pending, s < owners.length ∧ ¬ st.Mapped s) :
    Fits owners st .closeAll (.sweep pending) := by
  cases pending with
  | nil => trivial
  | cons => exact h

theorem fits_count {found : Nat} {pending : List SlotId} :
    Fits owners st .count (.count found pending) := by
  cases pending <;> trivial

/-- The effect of a connection: a handle that is in no slot yet. -/
theorem opens (h : Account owners st) {target : String} {use : Use} {s : SlotId}
    {descriptor : Target}
    (hfits : Fits owners st (.acquire target use) (.connecting s descriptor))
    (htracked : st'.Tracked s) (hentries : st'.entries = st.entries)
    (hmapped : st'.table.mapped = st.table.mapped)
    (hopened : st'.opened = st.opened ++ [target]) (hcloses : ∀ h, st'.closes h = st.closes h) :
    Effect owners owners st (.acquire target use) (.connecting s descriptor)
      (.storing s st.opened.length) st' where
  length := hentries ▸ h.length
  owner := id
  owned hmem := h.owned (hmapped ▸ hmem)
  keys := hmapped ▸ h.keys
  unmapped _ hs := by simpa [State.Mapped, hmapped] using hs
  opened {hd name} ho := by
    obtain ⟨hlt, -⟩ := List.getElem?_eq_some_iff.1 ho
    rwa [hopened, List.getElem?_append_left hlt]
  entry _ := State.entry_congr hentries _
  cached he := .inl (State.entry_congr hentries _ ▸ he)
  kept he := .inl ((State.entry_congr hentries _).trans he)
  tracked {s'} hs := by
    obtain ⟨target', hmem⟩ := hs.resolve_right fun hs => nomatch hs
    exact .inl ⟨target', hmapped ▸ hmem⟩
  tended {s'} hs hnone := by
    by_cases hs' : s = s'
    · exact .inl (hs' ▸ rfl)
    · exact .inr ⟨by simpa [State.Mapped, hmapped] using hs,
        State.entry_congr hentries _ ▸ hnone, fun htends => hs' (Option.some.inj htends)⟩
  balance hd := by
    simp only [hentries, hcloses, hopened, Phase.fresh?, List.length_append, List.length_singleton,
      Option.some.injEq, reduceCtorEq, if_false]
    -- the sums differ at the new handle only, where both get one more
    rcases Nat.lt_trichotomy hd st.opened.length with hlt | rfl | hgt
    · simp [hlt, Nat.ne_of_gt hlt, Nat.lt_succ_of_lt hlt]
    · simp [Nat.add_right_comm]
    · have hge : ¬ hd < st.opened.length + 1 := Nat.not_lt.2 hgt
      simp [hge, Nat.ne_of_lt hgt, Nat.not_lt_of_gt hgt]
  taken hd := by simp [hcloses, Phase.taken?]
  fits := ⟨hfits.1, State.entry_congr hentries _ ▸ hfits.2.1, htracked, by simp [hopened]⟩

/-- The effect of putting the new handle into its slot. -/
theorem stores (h : Account owners st) {target : String} {use : Use} {s : SlotId}
    {stored : HandleId} (hfits : Fits owners st (.acquire target use) (.storing s stored))
    (hentries : st'.entries = st.entries.set s (some stored))
    (hmapped : st'.table.mapped = st.table.mapped) (hopened : st'.opened = st.opened)
    (hcloses : ∀ h, st'.closes h = st.closes h) :
    Effect owners owners st (.acquire target use) (.storing s stored) (use.phase stored) st' := by
  obtain ⟨howner, hentry, -, -⟩ := hfits
  -- the slot was made for the target, so it exists
  have hlt : s < st.table.slots.length := by
    obtain ⟨hlt, -⟩ := List.getElem?_eq_some_iff.1 howner
    rwa [h.length, State.length_entries] at hlt
  have hself : st'.entry s = some stored := State.entry_of_set_self hentries hlt
  refine ⟨by simpa [hentries] using h.length, id, fun hmem => h.owned (hmapped ▸ hmem),
    hmapped ▸ h.keys, fun _ hs => by simpa [State.Mapped, hmapped] using hs, fun ho => hopened ▸ ho,
    fun {s'} hs' => ?_, fun {s' hd} he => ?_, fun {s' hd} he => ?_, fun {s'} hs' => ?_,
    fun {s'} hs' hnone => ?_, fun hd => ?_, fun hd => ?_, fits_usePhase⟩
  · exact State.entry_of_set_of_ne hentries fun hs => hs' (hs ▸ rfl)
  · by_cases hs : s = s'
    · subst hs
      cases hself.symm.trans he
      exact .inr rfl
    · exact .inl (State.entry_of_set_of_ne hentries hs ▸ he)
  · have hs : s ≠ s' := by
      rintro rfl
      simp [hentry] at he
    exact .inl ((State.entry_of_set_of_ne hentries hs).trans he)
  · obtain ⟨target', hmem⟩ := hs'.resolve_right fun hs => nomatch hs
    exact .inl ⟨target', hmapped ▸ hmem⟩
  · have hs : s ≠ s' := by
      rintro rfl
      simp [hself] at hnone
    exact .inr ⟨by simpa [State.Mapped, hmapped] using hs',
      State.entry_of_set_of_ne hentries hs ▸ hnone, fun htends => hs (Option.some.inj htends)⟩
  · -- what is one more in the slots is one less with the task
    have hcount := count_set (State.getElem?_entries hlt) (some stored) hd
    have hfresh : (Phase.storing s stored).fresh? = some stored := rfl
    simp only [hentries, hcloses, hopened, hentry, hfresh, Use.fresh?_phase, Option.some.injEq,
      reduceCtorEq, if_false] at hcount ⊢
    omega
  · have htaken : (Phase.storing s stored).taken? = none := rfl
    simp [hcloses, htaken]

/-! ## Turns -/

theorem effect_of_turn {timeout : Nat} (h : Account owners st)
    (htask : st.tasks[c]? = some ⟨r, p⟩) (hturn : Turn timeout st c r p p' st') :
    Effect owners owners st r p p' st' := by
  have hfits := h.fits htask
  have hmapped := hturn.mapped
  have htracked {s : SlotId} (hp : p.pending = []) (htr : st.Tracked s) : st'.Tracked s :=
    tracked_enter htask hturn.tasks hmapped hp htr
  have hunmapped {s : SlotId} (hs : ¬ st.Mapped s) : ¬ st'.Mapped s := by
    simpa [State.Mapped, hmapped] using hs
  -- the turns that open, store or take a handle have their own lemmas; the others are quiet
  cases hturn with
  | entered =>
    exact h.quiet rfl rfl rfl (fun _ => rfl) rfl rfl rfl (by simp [Phase.pending])
      (fun s hs => .inl hs) hfits
  | alive =>
    refine h.quiet ?_ hmapped (State.opened_useHandle ..) ?_ rfl (by simp) (by simp)
      (by simp [Phase.pending]) (fun s hs => nomatch hs) fits_usePhase
    · exact (State.entries_useHandle ..).trans (State.entries_release ..)
    · exact fun h => (State.closes_useHandle ..).trans (State.closes_emit ..)
  | @dead target use s hd =>
    obtain ⟨howner, hentry, htr⟩ := hfits
    have hentries : _ = st.entries.set s none := State.entries_setEntry st s none
    have hself : st.entry s = some hd := hentry
    refine h.takes hentry rfl hentries rfl rfl (fun h => ?_) rfl rfl rfl (by simp [Phase.pending])
      rfl (.inl rfl) ⟨howner, ?_, htracked rfl htr⟩
    · refine (State.closes_closeHandle ..).trans ?_
      exact congrArg (· + _) (State.closes_emit ..)
    · exact State.entry_of_set_self hentries (Table.lt_of_entry hentry)
  | discarded =>
    exact h.quiet rfl rfl rfl (fun _ => rfl) rfl rfl rfl (by simp [Phase.pending])
      (fun s hs => .inl hs) ⟨hfits.1, hfits.2.1, htracked rfl hfits.2.2⟩
  | asked =>
    exact h.quiet rfl rfl rfl (fun h => State.closes_emit ..) rfl rfl rfl (by simp [Phase.pending])
      (fun s hs => .inl hs) ⟨hfits.1, hfits.2.1, htracked rfl hfits.2.2⟩
  | unknown | inactive | failed =>
    exact h.quiet rfl rfl rfl (fun _ => rfl) rfl rfl rfl (by simp [Phase.pending])
      (fun s hs => .inl hs) ⟨hfits.1, hfits.2.1⟩
  | @connected target use s descriptor =>
    exact h.opens hfits (htracked rfl hfits.2.2) rfl rfl rfl fun _ => State.closes_emit ..
  | @stored target use s hd =>
    refine h.stores hfits ?_ hmapped (State.opened_useHandle ..) fun _ => State.closes_useHandle ..
    exact (State.entries_useHandle ..).trans
      ((State.entries_release ..).trans (State.entries_setEntry ..))
  | retried | left =>
    exact h.quiet (State.entries_release ..) rfl rfl (fun _ => rfl) rfl rfl rfl
      (by simp [Phase.pending]) (fun s hs => nomatch hs) trivial
  | used | closed =>
    exact h.quiet rfl rfl rfl (fun _ => rfl) rfl rfl rfl (by simp [Phase.pending])
      (fun s hs => nomatch hs) trivial
  -- there was nothing to empty, so the task has done with the slot
  | @foundEmpty target s hholder hentry =>
    refine h.quiet (State.entries_release ..) rfl rfl (fun _ => rfl) rfl rfl rfl (fun s' hs' => ?_)
      (fun s hs => nomatch hs) trivial
    have hs : s' = s := by simpa [Phase.pending] using hs'
    exact .inr ⟨hs ▸ hentry, hs ▸ rfl⟩
  | @emptied target s hd hholder hentry =>
    refine h.takes hentry rfl ?_ rfl rfl (fun h => State.closes_closeHandle ..) rfl rfl rfl
      (fun s' hs' => .inr (List.mem_singleton.1 hs').symm) rfl (.inr hfits.2) trivial
    exact (State.entries_release ..).trans (State.entries_setEntry ..)
  -- the first slot of the sweep is done with, and the rest stays to be emptied
  | @sweptEmpty s pending hholder hentry =>
    refine h.quiet (State.entries_release ..) rfl rfl (fun _ => rfl) rfl (by simp) (by simp)
      (fun s' hs' => ?_) (fun s hs => nomatch hs)
      (fits_sweep fun s' hs' => ?_)
    · rcases List.mem_cons.1 hs' with rfl | hs'
      · exact .inr ⟨hentry, rfl⟩
      · exact .inl (by simpa using hs')
    · obtain ⟨hlt, hs'⟩ := hfits s' (List.mem_cons_of_mem _ hs')
      exact ⟨hlt, hunmapped hs'⟩
  | @swept s hd pending hholder hentry =>
    obtain ⟨-, hs⟩ := hfits s (List.mem_cons_self ..)
    refine h.takes hentry rfl (State.entries_setEntry ..) rfl rfl
      (fun h => State.closes_closeHandle ..) rfl rfl rfl (fun s' hs' => ?_) rfl (.inr hs)
      fun s' hs' => ?_
    · rcases List.mem_cons.1 hs' with rfl | hs'
      · exact .inr rfl
      · exact .inl hs'
    · obtain ⟨hlt, hs'⟩ := hfits s' (List.mem_cons_of_mem _ hs')
      exact ⟨hlt, hunmapped hs'⟩
  | sweepClosed =>
    refine h.quiet (State.entries_release ..) rfl rfl (fun _ => rfl) rfl (by simp) (by simp)
      (fun s hs => .inl ((Phase.pending_sweep _).symm ▸ hs)) (fun s hs => nomatch hs)
      (fits_sweep fun s hs => ?_)
    obtain ⟨hlt, hs⟩ := hfits s hs
    exact ⟨hlt, hunmapped hs⟩
  | peeked =>
    exact h.quiet (State.entries_release ..) rfl rfl (fun _ => rfl) rfl rfl rfl
      (by simp [Phase.pending]) (fun s hs => nomatch hs) trivial
  | counted =>
    exact h.quiet (State.entries_release ..) rfl rfl (fun _ => rfl) rfl (by simp) (by simp)
      (by simp [Phase.pending]) (fun s hs => nomatch hs) fits_count

/-! ## Looks -/

/-- A slot that its target does not lead to is not mapped at all. -/
theorem not_mapped (h : Account owners st) {target : String} {s : SlotId}
    (howner : owners[s]? = some target) (hfind : st.table.find? target ≠ some s) :
    ¬ st.Mapped s := by
  rintro ⟨name, hmem⟩
  have hname : name = target := Option.some.inj ((h.owned hmem).symm.trans howner)
  exact hfind (Table.find?_of_mem h.keys (hname ▸ hmem))

/-- The effect of making the slot of a target. -/
theorem makes (h : Account owners st) {target : String} {use : Use}
    (hfind : st.table.find? target = none)
    (hentries : st'.entries = st.entries ++ [none])
    (hmapped : st'.table.mapped = st.table.mapped ++ [(target, st.entries.length)])
    (hopened : st'.opened = st.opened) (hcloses : ∀ h, st'.closes h = st.closes h) :
    Effect owners (owners ++ [target]) st (.acquire target use) .finding
      (.entering st.entries.length) st' := by
  have hnew : (owners ++ [target])[st.entries.length]? = some target := by
    rw [← h.length, List.getElem?_concat_length]
  -- slots are only added at the end: the old ones keep their owners and their entries
  have howner {s : SlotId} {name : String} (ho : owners[s]? = some name) :
      (owners ++ [target])[s]? = some name := by
    obtain ⟨hlt, -⟩ := List.getElem?_eq_some_iff.1 ho
    rwa [List.getElem?_append_left hlt]
  have hentry (s : SlotId) : st'.entry s = st.entry s := by
    rw [State.entry_eq, State.entry_eq, hentries, List.getElem?_append]
    split
    · rfl
    · rename_i hs
      rw [List.getElem?_eq_none (Nat.le_of_not_lt hs), List.getElem?_singleton]
      split <;> rfl
  have hmem {name : String} {s : SlotId} (hs : (name, s) ∈ st'.table.mapped) :
      (name, s) ∈ st.table.mapped ∨ (name = target ∧ s = st.entries.length) := by
    simpa [hmapped] using hs
  refine ⟨by simp [hentries, h.length], howner, fun {name s} hs => ?_, ?_, fun {s} hlt hs => ?_,
    fun ho => hopened ▸ ho, fun _ => hentry _, fun he => .inl (hentry _ ▸ he),
    fun he => .inl ((hentry _).trans he), fun {s} hs => ?_, fun {s} hs hnone => ?_, fun hd => ?_,
    fun hd => ?_, hnew⟩
  · rcases hmem hs with hs | ⟨rfl, rfl⟩
    · exact howner (h.owned hs)
    · exact hnew
  · rw [hmapped, List.map_append, List.map_singleton]
    -- the target was not in the table, so its key is new
    refine List.nodup_append.2 ⟨h.keys, by simp, ?_⟩
    rintro name hname _ (_ | _) rfl
    · obtain ⟨⟨_, s⟩, hs, rfl⟩ := List.mem_map.1 hname
      simp [Table.find?_of_mem h.keys hs] at hfind
    · contradiction
  · -- a slot that was not mapped is not mapped now, unless it is the new one
    rintro ⟨name, hs'⟩
    rcases hmem hs' with hs' | ⟨-, rfl⟩
    · exact hs ⟨name, hs'⟩
    · simp [h.length] at hlt
  · -- what was mapped still is
    obtain ⟨name, hs⟩ := hs.resolve_right fun hs => nomatch hs
    exact .inl ⟨name, by simp [hmapped, hs]⟩
  · obtain ⟨name, hs⟩ := hs
    rcases hmem hs with hs | ⟨-, rfl⟩
    · exact .inr ⟨⟨name, hs⟩, hentry s ▸ hnone, fun htends => nomatch htends⟩
    · exact .inl rfl
  · simp [hentries, hcloses, hopened, Phase.fresh?]
  · simp [hcloses, Phase.taken?]

/-- The effect of dropping the slot of a target. -/
theorem unmaps (h : Account owners st) {target : String} {s : SlotId}
    (howner : owners[s]? = some target) (hentries : st'.entries = st.entries)
    (hmapped : st'.table.mapped = st.table.mapped.filter (·.1 ≠ target))
    (hopened : st'.opened = st.opened) (hcloses : ∀ h, st'.closes h = st.closes h)
    (hfresh : p.fresh? = none) (hfresh' : p'.fresh? = none) (htaken' : p'.taken? = none)
    (hleft : ∀ s', st.Mapped s' → owners[s']? = some target →
      s' ∈ p'.pending ∨ (st.entry s' = none ∧ p.slot? = some s'))
    (hpending : p.pending = []) (htends : ∀ s', p.tends? = some s' → s = s')
    (hfits : ¬ st'.Mapped s → Fits owners st' r p') : Effect owners owners st r p p' st' := by
  have hdropped : ¬ st'.Mapped s := by
    rintro ⟨name, hmem⟩
    obtain ⟨hmem, hne⟩ := List.mem_filter.1 (hmapped ▸ hmem)
    have hname : name = target := Option.some.inj ((h.owned hmem).symm.trans howner)
    simp [hname] at hne
  refine h.drops hentries (hmapped ▸ List.filter_sublist) hopened hcloses hfresh hfresh' htaken'
    (fun s' hs' => ?_) (fun s' hs' => .inr (.inr (htends s' hs' ▸ hdropped))) (hfits hdropped)
  obtain ⟨name, hmem⟩ := hs'.resolve_right (by simp [hpending])
  by_cases hname : name = target
  · exact .inr (hleft s' ⟨name, hmem⟩ (hname ▸ h.owned hmem))
  · exact .inl ⟨name, hmapped ▸ List.mem_filter.2 ⟨hmem, by simpa using hname⟩⟩

theorem effect_of_look (h : Account owners st) (htask : st.tasks[c]? = some ⟨r, p⟩)
    (hlook : Look st c r p p' st') : ∃ owners', Effect owners owners' st r p p' st' := by
  have hfits := h.fits htask
  cases hlook with
  | found hfind =>
    exact ⟨owners, h.quiet rfl rfl rfl (fun _ => rfl) rfl rfl rfl (by simp [Phase.pending])
      (fun s hs => by cases hs) (h.owned (Table.mem_of_find? hfind))⟩
  -- the owners get one more, for the slot that is made
  | @made target use hfind =>
    have hlength := State.length_entries st
    refine ⟨owners ++ [target], ?_⟩
    rw [← hlength]
    refine h.makes hfind ?_ ?_ rfl fun _ => rfl
    · simp [State.entries, Table.findOrMake, hfind]
    · simp [Table.findOrMake, hfind, hlength]
  | inUse hfind hentry =>
    refine ⟨owners, h.quiet rfl rfl rfl (fun _ => rfl) rfl rfl rfl (by simp [Phase.pending])
      (fun s hs => .inr (.inl ?_)) ⟨hfits, hentry, .inl ⟨_, Table.mem_of_find? hfind⟩⟩⟩
    cases hs
    simp [State.entry, hentry]
  | empty hfind hentry =>
    exact ⟨owners, h.quiet rfl rfl rfl (fun _ => rfl) rfl rfl rfl (by simp [Phase.pending])
      (fun s hs => .inl hs) ⟨hfits, hentry, .inl ⟨_, Table.mem_of_find? hfind⟩⟩⟩
  | dropped hfind =>
    refine ⟨owners, h.quiet rfl rfl rfl (fun _ => rfl) rfl rfl rfl (by simp [Phase.pending])
      (fun s hs => .inr (.inr ?_)) trivial⟩
    cases hs
    -- the slot of this task is mapped no more, so nobody has to tend it
    exact h.not_mapped hfits hfind
  -- the table may lead to another slot by now, and then nothing is dropped
  | @evicted target use s =>
    obtain ⟨howner, hentry⟩ := hfits
    refine ⟨owners, ?_⟩
    by_cases hfind : st.table.find? target = some s
    · have htable : st.table.unmapIfCurrent target s = st.table.unmap target := by
        simp [Table.unmapIfCurrent, Table.isCurrent, hfind]
      rw [htable]
      refine h.unmaps howner rfl rfl rfl (fun _ => rfl) rfl rfl rfl (fun s' hs' howner' => ?_) rfl
        (fun s' hs' => Option.some.inj hs') fun _ => trivial
      · obtain ⟨name, hmem⟩ := hs'
        have hname : name = target := Option.some.inj ((h.owned hmem).symm.trans howner')
        have hfind' := Table.find?_of_mem h.keys (hname ▸ hmem)
        cases hfind.symm.trans hfind'
        exact .inr ⟨hentry, rfl⟩
    · have htable : st.table.unmapIfCurrent target s = st.table := by
        simp [Table.unmapIfCurrent, Table.isCurrent, hfind]
      rw [htable]
      refine h.quiet rfl rfl rfl (fun _ => rfl) rfl rfl rfl (by simp [Phase.pending])
        (fun s' hs' => ?_) trivial
      cases hs'
      exact .inr (.inr (h.not_mapped howner hfind))
  | notMapped | absent =>
    exact ⟨owners, h.quiet rfl rfl rfl (fun _ => rfl) rfl rfl rfl (by simp [Phase.pending])
      (fun s hs => by cases hs) trivial⟩
  -- the slot that leaves the table is the one that the call will empty
  | @unmapped target s hfind =>
    have howner := h.owned (Table.mem_of_find? hfind)
    refine ⟨owners, h.unmaps howner rfl rfl rfl (fun _ => rfl) rfl rfl rfl (fun s' hs' howner' => ?_)
      rfl (fun s' hs' => by cases hs') fun hs => ⟨howner, hs⟩⟩
    obtain ⟨name, hmem⟩ := hs'
    have hname : name = target := Option.some.inj ((h.owned hmem).symm.trans howner')
    have hfind' := Table.find?_of_mem h.keys (hname ▸ hmem)
    cases hfind.symm.trans hfind'
    exact .inl (List.mem_singleton.2 rfl)
  -- all slots leave the table, and all are to be emptied
  | unmappedAll horder =>
    refine ⟨owners, h.drops rfl (List.nil_sublist _) rfl (fun _ => rfl) rfl (by simp) (by simp)
      (fun s hs => ?_) (fun s hs => by cases hs) (fits_sweep fun s hs => ?_)⟩
    · obtain ⟨name, hmem⟩ := hs.resolve_right (by rintro ⟨⟩)
      have hpending : s ∈ _ := horder.mem_iff.2 (List.mem_map_of_mem hmem)
      exact .inr (.inl (by simpa using hpending))
    · obtain ⟨⟨name, _⟩, hmem, rfl⟩ := List.mem_map.1 (horder.mem_iff.1 hs)
      obtain ⟨hlt, -⟩ := List.getElem?_eq_some_iff.1 (h.owned hmem)
      refine ⟨hlt, fun hmapped => ?_⟩
      obtain ⟨_, hmem⟩ := hmapped
      cases hmem
  | present =>
    exact ⟨owners, h.quiet rfl rfl rfl (fun _ => rfl) rfl rfl rfl (by simp [Phase.pending])
      (fun s hs => by cases hs) trivial⟩
  | listed =>
    exact ⟨owners, h.quiet rfl rfl rfl (fun _ => rfl) rfl (by simp) (by simp)
      (by simp [Phase.pending]) (fun s hs => by cases hs) fits_count⟩

/-- The slots that a task will empty are in the table no more. -/
theorem pending_unmapped (h : Account owners st) (htask : st.tasks[c]? = some ⟨r, p⟩) {s : SlotId}
    (hs : s ∈ p.pending) : s < owners.length ∧ ¬ st.Mapped s := by
  have hfits := h.fits htask
  cases p with
  | emptying s' =>
    obtain rfl : s = s' := List.mem_singleton.1 hs
    cases r with
    | close target =>
      obtain ⟨hlt, -⟩ := List.getElem?_eq_some_iff.1 hfits.1
      exact ⟨hlt, hfits.2⟩
    | _ => exact hfits.elim
  | sweeping pending | sweepClosing _ _ pending =>
    cases r with
    | closeAll => exact hfits s hs
    | _ => exact hfits.elim
  | _ => cases hs

/-! ## Runs -/

/-- The account does not depend on who has which lock. -/
theorem congr (h : Account owners st) (hmapped : st'.table.mapped = st.table.mapped)
    (hentries : st'.entries = st.entries) (htasks : st'.tasks = st.tasks)
    (hopened : st'.opened = st.opened) (hevents : st'.events = st.events) : Account owners st' := by
  have hentry (s : SlotId) : st'.entry s = st.entry s := State.entry_congr hentries s
  have hmap (s : SlotId) : st'.Mapped s ↔ st.Mapped s := by simp [State.Mapped, hmapped]
  have htracked (s : SlotId) : st'.Tracked s ↔ st.Tracked s := by
    simp [State.Tracked, State.Doomed, hmap, htasks]
  refine ⟨hentries ▸ h.length, fun hs => h.owned (hmapped ▸ hs), hmapped ▸ h.keys,
    fun htask => ?_, fun he => hopened ▸ h.cached (hentry _ ▸ he),
    fun he => (htracked _).2 (h.tracked (hentry _ ▸ he)),
    fun hs hnone => htasks ▸ h.tended ((hmap _).1 hs) (hentry _ ▸ hnone), ?_, ?_⟩
  · exact (h.fits (htasks ▸ htask)).mono id (fun ho => hopened ▸ ho)
      (fun _ hs => mt (hmap _).1 hs) (fun s _ => hentry s) fun s _ => (htracked s).2
  · simpa [State.closes, hentries, htasks, hopened, hevents] using h.balance
  · simpa [State.closes, htasks, hevents] using h.taken

theorem submit (h : Account owners st) (r : Request) : Account owners (st.submit r) := by
  have hold {d : TaskId} {task : Task} (htask : st.tasks[d]? = some task) :
      (st.submit r).tasks[d]? = some task := by
    obtain ⟨hd, -⟩ := List.getElem?_eq_some_iff.1 htask
    simpa [List.getElem?_append_left hd] using htask
  have htracked {s : SlotId} (hs : st.Tracked s) : (st.submit r).Tracked s := by
    rcases hs with hs | ⟨d, task, htask, hs⟩
    · exact .inl hs
    · exact .inr ⟨d, task, hold htask, hs⟩
  have hfresh : r.begin.fresh? = none := by cases r <;> rfl
  have htaken : r.begin.taken? = none := by cases r <;> rfl
  refine ⟨h.length, h.owned, h.keys, fun {d r' p'} htask => ?_, h.cached,
    fun he => htracked (h.tracked he), fun hs hnone => ?_, fun hd => ?_, fun hd => ?_⟩
  · rcases Nat.lt_or_ge d st.tasks.length with hd | hd
    · have htask : st.tasks[d]? = some ⟨r', p'⟩ := by
        simpa [List.getElem?_append_left hd] using htask
      exact (h.fits htask).mono id id (fun _ hs => hs) (fun _ _ => rfl) fun _ _ => htracked
    · obtain ⟨-, rfl, rfl⟩ : d - st.tasks.length = 0 ∧ r = r' ∧ r.begin = p' := by
        simpa [List.getElem?_append_right hd, List.getElem?_singleton] using htask
      cases r <;> trivial
  · obtain ⟨d, task, htask, htends⟩ := h.tended hs hnone
    exact ⟨d, task, hold htask, htends⟩
  · have hcount : (st.submit r).tasks.countP (·.phase.fresh? = some hd) =
        st.tasks.countP (·.phase.fresh? = some hd) := by simp [hfresh]
    rw [hcount]
    exact h.balance hd
  · simpa [htaken, State.closes] using h.taken hd

theorem move {timeout : Nat} (h : Account owners st) (hlocks : Locks st)
    (htask : st.tasks[c]? = some ⟨r, p⟩) (hmove : Move timeout st c r p st') :
    ∃ owners', Account owners' st' := by
  cases hmove with
  | lockTable => exact ⟨owners, h.congr rfl rfl rfl rfl rfl⟩
  | lock | queue =>
    exact ⟨owners, h.congr rfl (State.entries_modifySlot fun _ => rfl) rfl rfl rfl⟩
  | look hholder hlook =>
    obtain ⟨owners', heffect⟩ := h.effect_of_look htask hlook
    have hwants := Phase.wants?_eq_none_of_wantsTable hlook.wantsTable
    have hafter := h.of_effect hlocks htask (fun s hs => by simp [hwants] at hs) hlook.tasks heffect
    exact ⟨owners', hafter.congr rfl rfl rfl rfl rfl⟩
  | turn hturn =>
    exact ⟨owners, h.of_effect hlocks htask hturn.arrived hturn.tasks
      (h.effect_of_turn htask hturn)⟩

/-- Nothing has been called yet: there are no slots and no handles. -/
theorem start : Account [] {} := by
  constructor <;> simp [State.entries, State.entry, State.Mapped, State.closes, Table.slot]

end Account

end

theorem Reachable.account {st : State} (h : Reachable st) : ∃ owners, Account owners st := by
  induction h with
  | refl => exact ⟨[], .start⟩
  | submit _ r ih =>
    obtain ⟨owners, ih⟩ := ih
    exact ⟨owners, ih.submit r⟩
  | step hrun hstep ih =>
    obtain ⟨owners, ih⟩ := ih
    obtain ⟨r, p, htask, hmove⟩ := move_of_step hstep
    exact ih.move (Reachable.locks hrun) htask hmove

end ShellQuery.Cache
