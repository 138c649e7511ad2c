/-
  ShellQuery.Proofs.Cache.Projection

  What there is of one target in a cache: its slots, the calls on it, the handles that were opened
  for it, and the dealings of its calls with the store. An `Attribution` says which target each
  number belongs to. `State.project` keeps what belongs to one target and numbers it anew, in the
  old order, so the result is again a cache. Each part of a step of a call on the target does the
  same to the projection, and no part of a step of another call touches it.
-/
import Mathlib.Data.Nat.Count
import ShellQuery.Proofs.Cache.Attribution

namespace ShellQuery.Cache

/-! ## Numbers of one target -/

section
variable {α : Type} {owner : Nat → Option String} {t : String} {i j : Nat}

/-- The elements of a list at the numbers that belong to a target. -/
def pick (owner : Nat → Option String) (t : String) : List α → List α
  | [] => []
  | a :: l =>
    let rest := pick (owner ∘ Nat.succ) t l
    if owner 0 = some t then a :: rest else rest

/-- The new number of a number that belongs to a target: how many come before it. -/
def rank (owner : Nat → Option String) (t : String) (i : Nat) : Nat :=
  Nat.count (fun j => owner j = some t) i

theorem rank_succ (owner : Nat → Option String) (t : String) (i : Nat) :
    rank owner t (i + 1) = rank (owner ∘ Nat.succ) t i + if owner 0 = some t then 1 else 0 :=
  Nat.count_succ' ..

/-- Different numbers of one target stay different. -/
theorem rank_inj (hi : owner i = some t) (hj : owner j = some t) :
    rank owner t i = rank owner t j ↔ i = j :=
  ⟨Nat.count_injective hi hj, congrArg _⟩

/-- What belongs to a target is found at its rank. -/
theorem getElem?_pick (l : List α) (hi : owner i = some t) :
    (pick owner t l)[rank owner t i]? = l[i]? := by
  induction l generalizing owner i with
  | nil => simp [pick]
  | cons a l ih =>
    cases i with
    | zero => simp [pick, rank, hi]
    | succ i =>
      have htail := @ih (owner ∘ Nat.succ) i hi
      rw [rank_succ, pick]
      split <;> simpa using htail

theorem length_pick (l : List α) : (pick owner t l).length = rank owner t l.length := by
  induction l generalizing owner with
  | nil => simp [pick, rank]
  | cons a l ih =>
    rw [List.length_cons, rank_succ, pick, ← ih]
    split <;> rfl

/-- An entry at the end is picked if it belongs to the target, and is the last one then. -/
theorem pick_append_singleton (l : List α) (a : α) : pick owner t (l ++ [a]) =
    pick owner t l ++ if owner l.length = some t then [a] else [] := by
  induction l generalizing owner with
  | nil => simp [pick]
  | cons b l ih =>
    rw [List.cons_append, pick, pick, ih]
    simp only [Function.comp_apply, List.length_cons, Nat.succ_eq_add_one]
    split <;> rfl

/-- A change of an entry that is picked is one at its rank. -/
theorem pick_modify (l : List α) (f : α → α) (hi : owner i = some t) :
    pick owner t (l.modify i f) = (pick owner t l).modify (rank owner t i) f := by
  induction l generalizing owner i with
  | nil => simp [pick]
  | cons a l ih =>
    cases i with
    | zero => simp [pick, rank, hi]
    | succ i =>
      have htail := @ih (owner ∘ Nat.succ) i hi
      rw [List.modify_succ_cons, rank_succ, pick, pick, htail]
      split <;> simp

theorem pick_modify_of_ne (l : List α) (f : α → α) (hi : owner i ≠ some t) :
    pick owner t (l.modify i f) = pick owner t l := by
  induction l generalizing owner i with
  | nil => simp [pick]
  | cons a l ih =>
    cases i with
    | zero => simp [pick, hi]
    | succ i =>
      have htail := @ih (owner ∘ Nat.succ) i hi
      rw [List.modify_succ_cons, pick, pick, htail]

theorem map_modify {β : Type} {f : α → α} {g : α → β} {k : β → β} (h : ∀ a, g (f a) = k (g a))
    (l : List α) (i : Nat) : (l.modify i f).map g = (l.map g).modify i k := by
  induction l generalizing i with
  | nil => simp
  | cons a l ih => cases i <;> simp [h, ih]

end

/-! ## New numbers -/

/-- A new number for each task, slot and handle. -/
structure Renaming where
  task : TaskId → TaskId
  slot : SlotId → SlotId
  handle : HandleId → HandleId

variable {ρ : Renaming}

def Reply.rename (ρ : Renaming) : Reply → Reply
  | .handle h => .handle (ρ.handle h)
  | reply => reply

def Phase.rename (ρ : Renaming) : Phase → Phase
  | .finding => .finding
  | .entering s => .entering (ρ.slot s)
  | .checking s => .checking (ρ.slot s)
  | .probing s h => .probing (ρ.slot s) (ρ.handle h)
  | .discarding s h => .discarding (ρ.slot s) (ρ.handle h)
  | .resolving s => .resolving (ρ.slot s)
  | .connecting s descriptor => .connecting (ρ.slot s) descriptor
  | .storing s h => .storing (ρ.slot s) (ρ.handle h)
  | .evicting s reason => .evicting (ρ.slot s) reason
  | .leaving s reply => .leaving (ρ.slot s) (reply.map (·.rename ρ))
  | .using h => .using (ρ.handle h)
  | .unmapping => .unmapping
  | .emptying s => .emptying (ρ.slot s)
  | .closing h => .closing (ρ.handle h)
  | .unmappingAll => .unmappingAll
  | .sweeping pending => .sweeping (pending.map ρ.slot)
  | .sweepClosing s h pending => .sweepClosing (ρ.slot s) (ρ.handle h) (pending.map ρ.slot)
  | .looking => .looking
  | .peeking s => .peeking (ρ.slot s)
  | .listing => .listing
  | .counting pending found => .counting (pending.map ρ.slot) found
  | .finished reply => .finished (reply.rename ρ)

def Event.rename (ρ : Renaming) : Event → Event
  | .connect target descriptor timeout => .connect target descriptor timeout
  | .opened h => .opened (ρ.handle h)
  | .probed h alive => .probed (ρ.handle h) alive
  | .run h operation => .run (ρ.handle h) operation
  | .listed h => .listed (ρ.handle h)
  | .closed h => .closed (ρ.handle h)

def Task.rename (ρ : Renaming) (task : Task) : Task :=
  { task with phase := task.phase.rename ρ }

def Slot.rename (ρ : Renaming) (slot : Slot) : Slot where
  entry := slot.entry.map ρ.handle
  holder := slot.holder.map ρ.task
  waiting := slot.waiting.map ρ.task

theorem Slot.rename_release (slot : Slot) : slot.release.rename ρ = (slot.rename ρ).release := by
  obtain ⟨entry, holder, waiting⟩ := slot
  cases waiting <;> rfl

/-- What an answer to a use comes to is no handle, so it needs no new number. -/
theorem Use.rename_outcome? {use : Use} {answer : Answer} {reply : Reply}
    (h : use.outcome? answer = some reply) : reply.rename ρ = reply := by
  unfold Use.outcome? at h
  split at h <;> cases h <;> rfl

/-! ## What belongs to a target -/

/-- The new numbers of what belongs to a target. -/
def Attribution.renaming (N : Attribution) (t : String) : Renaming where
  task := rank N.task t
  slot := rank N.slot t
  handle := rank N.handle t

/-- What there is of a target in a table. The lock of the table counts where one of its calls has
    it. -/
def Table.project (N : Attribution) (t : String) (table : Table) : Table where
  mapped := (table.mapped.filter (·.1 = t)).map fun m => (m.1, (N.renaming t).slot m.2)
  slots := (pick N.slot t table.slots).map (Slot.rename (N.renaming t))
  holder := (table.holder.filter fun c => N.task c = some t).map (N.renaming t).task

/-- What there is of a target in a cache. -/
def State.project (N : Attribution) (t : String) (st : State) : State where
  table := st.table.project N t
  tasks := (pick N.task t st.tasks).map (Task.rename (N.renaming t))
  opened := pick N.handle t st.opened
  events := (st.events.filter fun e => N.task e.1 = some t).map fun e =>
    ((N.renaming t).task e.1, e.2.rename (N.renaming t))

variable {N : Attribution} {t : String} {st : State} {c : TaskId} {s : SlotId}

namespace Table

variable {table : Table}

/-- The slots of a target are as they were, but for their numbers. -/
theorem slot_project (hs : N.slot s = some t) :
    (table.project N t).slot ((N.renaming t).slot s) = (table.slot s).rename (N.renaming t) := by
  have hpick : (pick N.slot t table.slots)[rank N.slot t s]? = table.slots[s]? := getElem?_pick _ hs
  simp only [slot, project, Attribution.renaming, List.getElem?_map, hpick]
  cases table.slots[s]? <;> rfl

theorem entry_project (hs : N.slot s = some t) :
    ((table.project N t).slot ((N.renaming t).slot s)).entry =
      (table.slot s).entry.map (N.renaming t).handle :=
  congrArg Slot.entry (slot_project hs)

/-- The slot of a target is found alone as with others. -/
theorem find?_project :
    (table.project N t).find? t = (table.find? t).map (N.renaming t).slot := by
  simp only [find?, project]
  induction table.mapped with
  | nil => rfl
  | cons m mapped ih =>
    obtain ⟨name, s⟩ := m
    by_cases hname : name = t
    · subst hname
      simp
    · have hne : (t == name) = false := by simpa using Ne.symm hname
      simpa [hname, hne, List.lookup_cons] using ih

theorem project_modifySlot (hs : N.slot s = some t) {f g : Slot → Slot}
    (hf : ∀ slot, (f slot).rename (N.renaming t) = g (slot.rename (N.renaming t))) :
    (table.modifySlot s f).project N t =
      (table.project N t).modifySlot ((N.renaming t).slot s) g := by
  simp only [modifySlot, project, pick_modify _ _ hs, map_modify hf]
  rfl

theorem project_modifySlot_of_ne (hs : N.slot s ≠ some t) (f : Slot → Slot) :
    (table.modifySlot s f).project N t = table.project N t := by
  simp only [modifySlot, project, pick_modify_of_ne _ _ hs]

theorem isCurrent_project (hs : N.slot s = some t)
    (hmapped : ∀ s', table.find? t = some s' → N.slot s' = some t) :
    (table.project N t).isCurrent t ((N.renaming t).slot s) = table.isCurrent t s := by
  simp only [isCurrent, find?_project]
  cases hfind : table.find? t with
  | none => rfl
  | some s' =>
    have hrank : (N.renaming t).slot s' = (N.renaming t).slot s ↔ s' = s :=
      rank_inj (hmapped s' hfind) hs
    simp [hrank]

/-- The slot that is found or made. A new one belongs to the target that it is made for. -/
theorem project_findOrMake
    (hnew : table.find? t = none → N.slot table.slots.length = some t) :
    (table.project N t).findOrMake t = ((N.renaming t).slot (table.findOrMake t).1,
      (table.findOrMake t).2.project N t) := by
  cases hfind : table.find? t with
  | some s =>
    have hprojected : (table.project N t).find? t = some ((N.renaming t).slot s) := by
      rw [find?_project, hfind, Option.map_some]
    simp only [findOrMake, hfind, hprojected]
  | none =>
    have hprojected : (table.project N t).find? t = none := by
      rw [find?_project, hfind, Option.map_none]
    have hlength : (table.project N t).slots.length = (N.renaming t).slot table.slots.length := by
      simp only [project, Attribution.renaming, List.length_map, length_pick]
    simp only [findOrMake, hfind, hprojected, hlength]
    simp [project, pick_append_singleton, hnew hfind, Slot.rename]

theorem project_unmap : (table.unmap t).project N t = (table.project N t).unmap t := by
  simp only [unmap, project, List.filter_map, List.filter_filter]
  congr 2
  simp

theorem project_unmapIfCurrent (hs : N.slot s = some t)
    (hmapped : ∀ s', table.find? t = some s' → N.slot s' = some t) :
    (table.unmapIfCurrent t s).project N t =
      (table.project N t).unmapIfCurrent t ((N.renaming t).slot s) := by
  simp only [unmapIfCurrent, isCurrent_project hs hmapped]
  split
  · exact project_unmap
  · rfl

/-- A slot that another target is given is not seen. -/
theorem project_findOrMake_of_ne {target : String} (hne : target ≠ t)
    (hnew : table.find? target = none → N.slot table.slots.length = some target) :
    (table.findOrMake target).2.project N t = table.project N t := by
  cases hfind : table.find? target with
  | some s => simp only [findOrMake, hfind]
  | none =>
    have hslot : N.slot table.slots.length ≠ some t := by
      rw [hnew hfind]
      exact fun heq => hne (Option.some.inj heq)
    simp [findOrMake, hfind, project, pick_append_singleton, hslot, hne]

theorem project_unmap_of_ne {target : String} (hne : target ≠ t) :
    (table.unmap target).project N t = table.project N t := by
  simp only [unmap, project, List.filter_filter]
  congr 2
  refine List.filter_congr fun m _ => ?_
  by_cases hm : m.1 = t
  · simp [hm, Ne.symm hne]
  · simp [hm]

end Table

/-! ## Parts of a step of a call on the target -/

namespace State

theorem table_project : (st.project N t).table = st.table.project N t :=
  rfl

theorem project_table (table : Table) :
    State.project N t { st with table } = { st.project N t with table := table.project N t } :=
  rfl

theorem length_opened_project :
    (st.project N t).opened.length = (N.renaming t).handle st.opened.length :=
  length_pick _

theorem project_opened (hnew : N.handle st.opened.length = some t) :
    State.project N t { st with opened := st.opened ++ [t] } =
      { st.project N t with opened := (st.project N t).opened ++ [t] } := by
  simp only [project, pick_append_singleton, hnew, if_true]

theorem project_submit {r : Request} (hnew : N.task st.tasks.length = some t) :
    (st.submit r).project N t = (st.project N t).submit r := by
  have hbegin : r.begin.rename (N.renaming t) = r.begin := by cases r <;> rfl
  simp [project, submit, pick_append_singleton, hnew, Task.rename, hbegin]

section
variable (hc : N.task c = some t)
include hc

/-- A call on the target has its task alone as with others. -/
theorem getElem?_project :
    (st.project N t).tasks[(N.renaming t).task c]? =
      st.tasks[c]?.map (Task.rename (N.renaming t)) := by
  simp only [project, Attribution.renaming, List.getElem?_map, getElem?_pick _ hc]

theorem project_enter (p : Phase) : (st.enter c p).project N t =
    (st.project N t).enter ((N.renaming t).task c) (p.rename (N.renaming t)) := by
  have htasks : ((pick N.task t st.tasks).modify (rank N.task t c) fun task =>
        { task with phase := p }).map (Task.rename (N.renaming t)) =
      ((pick N.task t st.tasks).map (Task.rename (N.renaming t))).modify (rank N.task t c)
        fun task => { task with phase := p.rename (N.renaming t) } :=
    map_modify (f := fun task => { task with phase := p }) (g := Task.rename (N.renaming t))
      (k := fun task => { task with phase := p.rename (N.renaming t) }) (fun _ => rfl) _ _
  simp only [project, enter, pick_modify _ _ hc, htasks]
  rfl

theorem project_emit (e : Event) : (st.emit c e).project N t =
    (st.project N t).emit ((N.renaming t).task c) (e.rename (N.renaming t)) := by
  simp [project, emit, hc]

theorem project_useHandle (use : Use) (h : HandleId) : (st.useHandle c use h).project N t =
    (st.project N t).useHandle ((N.renaming t).task c) use ((N.renaming t).handle h) := by
  cases use with
  | keep => exact project_enter hc _
  | run | list =>
    simp only [useHandle, project_enter hc, project_emit hc]
    rfl

end

section
variable (hs : N.slot s = some t)
include hs

theorem project_modifySlot {f g : Slot → Slot}
    (hf : ∀ slot, (f slot).rename (N.renaming t) = g (slot.rename (N.renaming t))) :
    (st.modifySlot s f).project N t =
      (st.project N t).modifySlot ((N.renaming t).slot s) g := by
  simp only [modifySlot, project, Table.project_modifySlot hs hf]

theorem project_release :
    (st.release s).project N t = (st.project N t).release ((N.renaming t).slot s) :=
  project_modifySlot hs Slot.rename_release

theorem project_setEntry (entry : Option HandleId) : (st.setEntry s entry).project N t =
    (st.project N t).setEntry ((N.renaming t).slot s) (entry.map (N.renaming t).handle) :=
  project_modifySlot hs fun _ => rfl

end

/-- A look at the table under its lock. Where a call on another target has the lock, the projection
    knows of none, so that case is left out. -/
theorem project_withTable (hc : N.task c = some t)
    (hlock : ∀ d, st.table.holder = some d → N.task d = some t) {look look' : State → State}
    (hlook : st.table.holder = some c → (look st).project N t = look' (st.project N t)) :
    (st.project N t).withTable ((N.renaming t).task c) look' =
      (st.withTable c look).map (State.project N t) := by
  cases hholder : st.table.holder with
  | none =>
    have hprojected : (st.project N t).table.holder = none := by
      simp [project, Table.project, hholder]
    simp only [withTable, hholder, hprojected, Option.map_some]
    simp [project, Table.project, hc]
  | some d =>
    have hd := hlock d hholder
    have hprojected : (st.project N t).table.holder = some ((N.renaming t).task d) := by
      simp [project, Table.project, hholder, hd]
    have heq : (N.renaming t).task d = (N.renaming t).task c ↔ d = c := rank_inj hd hc
    simp only [withTable, hholder, hprojected, heq]
    split
    · rename_i hdc
      rw [← hlook (hdc ▸ hholder), Option.map_some]
      rfl
    · rfl

/-- A turn with a slot of the target, whose holder and line are calls on it. -/
theorem project_withSlot (hc : N.task c = some t) (hs : N.slot s = some t)
    (hholder : ∀ d, (st.table.slot s).holder = some d → N.task d = some t)
    (hwaiting : ∀ d ∈ (st.table.slot s).waiting, N.task d = some t) {next next' : State → State}
    (hnext : (next st).project N t = next' (st.project N t)) :
    (st.project N t).withSlot ((N.renaming t).task c) ((N.renaming t).slot s) next' =
      (st.withSlot c s next).map (State.project N t) := by
  have hslot : (st.project N t).table.slot ((N.renaming t).slot s) =
      (st.table.slot s).rename (N.renaming t) := Table.slot_project hs
  -- those in line are calls on the target, where renaming is injective
  have hcontains : ((st.table.slot s).waiting.map (N.renaming t).task).contains
      ((N.renaming t).task c) = (st.table.slot s).waiting.contains c := by
    rw [Bool.eq_iff_iff]
    simp only [List.contains_iff_mem, List.mem_map]
    constructor
    · rintro ⟨d, hd, heq⟩
      exact (rank_inj (hwaiting d hd) hc).1 heq ▸ hd
    · exact fun hmem => ⟨c, hmem, rfl⟩
  simp only [withSlot, hslot]
  cases hheld : (st.table.slot s).holder with
  | none =>
    have hrenamed : ((st.table.slot s).rename (N.renaming t)).holder = none := by
      simp [Slot.rename, hheld]
    rw [hrenamed, Option.map_some, project_modifySlot hs]
    exact fun _ => rfl
  | some d =>
    have hrenamed : ((st.table.slot s).rename (N.renaming t)).holder =
        some ((N.renaming t).task d) := by
      simp [Slot.rename, hheld]
    -- and so is the holder: the caller holds the slot in both or in neither
    have heq : (N.renaming t).task d = (N.renaming t).task c ↔ d = c :=
      rank_inj (hholder d hheld) hc
    simp only [hrenamed, heq]
    split
    · rw [Option.map_some, hnext]
    · change (if ((st.table.slot s).waiting.map (N.renaming t).task).contains _ then _ else _) = _
      rw [hcontains]
      split
      · rfl
      · rw [Option.map_some, project_modifySlot hs]
        exact fun slot => by simp [Slot.rename]

end State

/-! ## Parts of a step of another call -/

namespace State

theorem project_submit_of_ne {r : Request} (hnew : N.task st.tasks.length ≠ some t) :
    (st.submit r).project N t = st.project N t := by
  simp [project, submit, pick_append_singleton, hnew]

theorem project_opened_of_ne {target : String} (hnew : N.handle st.opened.length ≠ some t) :
    State.project N t { st with opened := st.opened ++ [target] } = st.project N t := by
  simp [project, pick_append_singleton, hnew]

/-- The lock of the table changes hands among calls on other targets. -/
theorem project_holder_of_ne {holder : Option TaskId}
    (hbefore : ∀ d, st.table.holder = some d → N.task d ≠ some t)
    (hafter : ∀ d, holder = some d → N.task d ≠ some t) :
    State.project N t { st with table := { st.table with holder } } = st.project N t := by
  have hnone {holder : Option TaskId} (h : ∀ d, holder = some d → N.task d ≠ some t) :
      holder.filter (fun c => N.task c = some t) = none := by
    cases holder with
    | none => rfl
    | some d => simp [h d rfl]
  simp only [project, Table.project, hnone hbefore, hnone hafter]

section
variable (hc : N.task c ≠ some t)
include hc

/-- Where a call on another target has come to is not seen, and neither is what it does to its slots
    and handles. -/
theorem project_enter_of_ne (p : Phase) : (st.enter c p).project N t = st.project N t := by
  simp only [project, enter, pick_modify_of_ne _ _ hc]

theorem project_emit_of_ne (e : Event) : (st.emit c e).project N t = st.project N t := by
  simp [project, emit, hc]

theorem project_useHandle_of_ne (use : Use) (h : HandleId) :
    (st.useHandle c use h).project N t = st.project N t := by
  cases use with
  | keep => exact project_enter_of_ne hc _
  | run | list => simp only [useHandle, project_enter_of_ne hc, project_emit_of_ne hc]

end

theorem project_modifySlot_of_ne (hs : N.slot s ≠ some t) (f : Slot → Slot) :
    (st.modifySlot s f).project N t = st.project N t := by
  simp only [modifySlot, project, Table.project_modifySlot_of_ne hs]

theorem project_release_of_ne (hs : N.slot s ≠ some t) :
    (st.release s).project N t = st.project N t :=
  project_modifySlot_of_ne hs _

theorem project_setEntry_of_ne (hs : N.slot s ≠ some t) (entry : Option HandleId) :
    (st.setEntry s entry).project N t = st.project N t :=
  project_modifySlot_of_ne hs _

end State

end ShellQuery.Cache
