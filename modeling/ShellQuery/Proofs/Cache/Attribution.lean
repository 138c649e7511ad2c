/-
  ShellQuery.Proofs.Cache.Attribution

  Which target each number of a cache belongs to. A call on a target deals with slots that were made
  for it, and these hold handles that were opened for it and are held and waited for by calls on it
  (`Attribution.Fits`). Numbers are given out in the course of a run and keep their target, so one
  attribution fits all states of a run (`Attribution.exists_fits`).
-/
import ShellQuery.Proofs.Cache.Flight

namespace ShellQuery.Cache

/-! ## The target of a call, and the numbers it deals with -/

/-- The target of a call on one. -/
def Request.target? : Request → Option String
  | .acquire target _ | .close target | .contains target => some target
  | .closeAll | .count => none

def Reply.handle? : Reply → Option HandleId
  | .handle h => some h
  | _ => none

/-- The handle that a task deals with or has come to. -/
def Phase.handle? : Phase → Option HandleId
  | .probing _ h | .discarding _ h | .storing _ h | .using h | .closing h
  | .sweepClosing _ h _ => some h
  | .finished reply | .leaving _ (some reply) => reply.handle?
  | _ => none

def Event.handle? : Event → Option HandleId
  | .connect _ _ _ => none
  | .opened h | .probed h _ | .run h _ | .listed h | .closed h => some h

theorem Use.handle?_phase (use : Use) (h : HandleId) : (use.phase h).handle? = some h := by
  cases use <;> rfl

theorem Use.slot?_phase (use : Use) (h : HandleId) : (use.phase h).slot? = none := by
  cases use <;> rfl

/-- What an answer to a use comes to is no handle. -/
theorem Use.handle?_outcome? {use : Use} {answer : Answer} {reply : Reply}
    (h : use.outcome? answer = some reply) : reply.handle? = none := by
  unfold Use.outcome? at h
  split at h <;> cases h <;> rfl

/-! ## Attributions -/

/-- The target that each task, slot and handle belongs to, by their numbers. -/
structure Attribution where
  task : TaskId → Option String
  slot : SlotId → Option String
  handle : HandleId → Option String

namespace Attribution

variable {N N' : Attribution} {name : String} {st st' : State} {c : TaskId} {r : Request}
  {p p' : Phase} {s : SlotId}

/-- Whether the numbers in a phase belong to a target. -/
structure Owns (N : Attribution) (name : String) (p : Phase) : Prop where
  slot : ∀ s, p.slot? = some s → N.slot s = some name
  handle : ∀ h, p.handle? = some h → N.handle h = some name

/-- Whether what is in a slot belongs to a target. -/
structure OwnsSlot (N : Attribution) (name : String) (slot : Slot) : Prop where
  entry : ∀ h, slot.entry = some h → N.handle h = some name
  holder : ∀ d, slot.holder = some d → N.task d = some name
  waiting : ∀ d ∈ slot.waiting, N.task d = some name

/-- Whether each number in a state belongs to the target that it is used for. -/
structure Fits (N : Attribution) (st : State) : Prop where
  task : ∀ {c r p}, st.tasks[c]? = some ⟨r, p⟩ →
    ∃ name, r.target? = some name ∧ N.task c = some name ∧ N.Owns name p
  mapped : ∀ {name s}, (name, s) ∈ st.table.mapped → N.slot s = some name
  slot : ∀ {s slot}, st.table.slots[s]? = some slot →
    ∃ name, N.slot s = some name ∧ N.OwnsSlot name slot
  opened : ∀ {h name}, st.opened[h]? = some name → N.handle h = some name
  event : ∀ {c e}, (c, e) ∈ st.events →
    ∃ name, N.task c = some name ∧ ∀ h, e.handle? = some h → N.handle h = some name

/-- A longer attribution says the same of what the shorter one knows. -/
structure Extends (N' N : Attribution) : Prop where
  task : ∀ {c name}, N.task c = some name → N'.task c = some name
  slot : ∀ {s name}, N.slot s = some name → N'.slot s = some name
  handle : ∀ {h name}, N.handle h = some name → N'.handle h = some name

theorem Extends.refl (N : Attribution) : N.Extends N :=
  ⟨id, id, id⟩

theorem Extends.trans {N'' : Attribution} (h : N''.Extends N') (h' : N'.Extends N) :
    N''.Extends N :=
  ⟨h.task ∘ h'.task, h.slot ∘ h'.slot, h.handle ∘ h'.handle⟩

theorem Owns.mono (h : N.Owns name p) (hle : N'.Extends N) : N'.Owns name p :=
  ⟨fun s hs => hle.slot (h.slot s hs), fun hd hhd => hle.handle (h.handle hd hhd)⟩

theorem OwnsSlot.mono {slot : Slot} (h : N.OwnsSlot name slot) (hle : N'.Extends N) :
    N'.OwnsSlot name slot :=
  ⟨fun hd hhd => hle.handle (h.entry hd hhd), fun d hd => hle.task (h.holder d hd),
    fun d hd => hle.task (h.waiting d hd)⟩

theorem Fits.mono (h : N.Fits st) (hle : N'.Extends N) : N'.Fits st where
  task htask := by
    obtain ⟨name, hr, hc, howns⟩ := h.task htask
    exact ⟨name, hr, hle.task hc, howns.mono hle⟩
  mapped hmem := hle.slot (h.mapped hmem)
  slot hslot := by
    obtain ⟨name, hs, howns⟩ := h.slot hslot
    exact ⟨name, hle.slot hs, howns.mono hle⟩
  opened hopened := hle.handle (h.opened hopened)
  event hmem := by
    obtain ⟨name, hc, hhandle⟩ := h.event hmem
    exact ⟨name, hle.task hc, fun hd hhd => hle.handle (hhandle hd hhd)⟩

/-- What is in a slot of a target belongs to it. -/
theorem Fits.ownsSlot (h : N.Fits st) (hs : N.slot s = some name) :
    N.OwnsSlot name (st.table.slot s) := by
  rw [Table.slot]
  cases hslot : st.table.slots[s]? with
  | none => constructor <;> simp
  | some slot =>
    obtain ⟨name', hs', howns⟩ := h.slot hslot
    cases hs.symm.trans hs'
    exact howns

/-- A call on a target, and what it deals with. -/
theorem Fits.owns (h : N.Fits st) (htask : st.tasks[c]? = some ⟨r, p⟩)
    (hr : r.target? = some name) : N.task c = some name ∧ N.Owns name p := by
  obtain ⟨name', hr', hc, howns⟩ := h.task htask
  cases hr.symm.trans hr'
  exact ⟨hc, howns⟩

/-! ## Parts of a step -/

theorem Fits.enter (h : N.Fits st) (htask : st.tasks[c]? = some ⟨r, p⟩)
    (hr : r.target? = some name) (howns : N.Owns name p') : N.Fits (st.enter c p') where
  task {d r' q} htask' := by
    rw [getElem?_of_enter htask (State.enter_tasks st c p')] at htask'
    split at htask'
    · rename_i hd
      cases htask'
      exact ⟨name, hr, hd ▸ (h.owns htask hr).1, howns⟩
    · exact h.task htask'
  mapped := h.mapped
  slot := h.slot
  opened := h.opened
  event := h.event

theorem Fits.emit (h : N.Fits st) (hc : N.task c = some name) {e : Event}
    (he : ∀ hd, e.handle? = some hd → N.handle hd = some name) : N.Fits (st.emit c e) where
  task := h.task
  mapped := h.mapped
  slot := h.slot
  opened := h.opened
  event hmem := by
    rcases List.mem_append.1 hmem with hmem | hmem
    · exact h.event hmem
    · cases List.mem_singleton.1 hmem
      exact ⟨name, hc, he⟩

/-- A dealing with a handle of the target. -/
theorem Fits.emitHandle (h : N.Fits st) (hc : N.task c = some name) {hd : HandleId} {e : Event}
    (hhd : N.handle hd = some name) (he : e.handle? = some hd) : N.Fits (st.emit c e) :=
  h.emit hc fun _ heq => Option.some.inj (he.symm.trans heq) ▸ hhd

theorem Fits.modifySlot (h : N.Fits st) (hs : N.slot s = some name) {f : Slot → Slot}
    (hf : ∀ slot, N.OwnsSlot name slot → N.OwnsSlot name (f slot)) :
    N.Fits (st.modifySlot s f) where
  task := h.task
  mapped := h.mapped
  slot {s' slot} hslot := by
    simp only [State.modifySlot_table, Table.modifySlot, List.getElem?_modify] at hslot
    obtain ⟨old, hold, hnew⟩ := Option.map_eq_some_iff.1 hslot
    obtain ⟨name', hs', howns⟩ := h.slot hold
    refine ⟨name', hs', ?_⟩
    split at hnew
    · rename_i hss
      cases (hss ▸ hs).symm.trans hs'
      exact hnew ▸ hf old howns
    · exact hnew ▸ howns
  opened := h.opened
  event := h.event

theorem OwnsSlot.release {slot : Slot} (h : N.OwnsSlot name slot) :
    N.OwnsSlot name slot.release := by
  unfold Slot.release
  split
  · exact ⟨h.entry, by simp, h.waiting⟩
  · rename_i next rest hwaiting
    have hmem := h.waiting
    rw [hwaiting] at hmem
    refine ⟨h.entry, ?_, fun d hd => hmem d (.tail _ hd)⟩
    rintro d hd
    cases hd
    exact hmem next (.head _)

theorem Fits.release (h : N.Fits st) (hs : N.slot s = some name) : N.Fits (st.release s) :=
  h.modifySlot hs fun _ => OwnsSlot.release

theorem Fits.setEntry (h : N.Fits st) (hs : N.slot s = some name) {entry : Option HandleId}
    (hentry : ∀ hd, entry = some hd → N.handle hd = some name) : N.Fits (st.setEntry s entry) :=
  h.modifySlot hs fun _ howns => ⟨hentry, howns.holder, howns.waiting⟩

theorem Fits.useHandle (h : N.Fits st) (htask : st.tasks[c]? = some ⟨r, p⟩)
    (hr : r.target? = some name) {use : Use} {hd : HandleId} (hhd : N.handle hd = some name) :
    N.Fits (st.useHandle c use hd) := by
  have hc := (h.owns htask hr).1
  have howns : N.Owns name (use.phase hd) := by
    refine ⟨fun s hs => ?_, fun hd' hhd' => ?_⟩
    · simp [Use.slot?_phase] at hs
    · rw [Use.handle?_phase] at hhd'
      exact Option.some.inj hhd' ▸ hhd
  cases use with
  | keep => exact h.enter htask hr howns
  | run | list => exact (h.emitHandle hc hhd rfl).enter htask hr howns

/-! ## Steps -/

theorem Owns.keepSlot (h : N.Owns name p) (hslot : p'.slot? = p.slot? ∨ p'.slot? = none) :
    ∀ s, p'.slot? = some s → N.slot s = some name := by
  intro s hs
  obtain hslot | hslot := hslot
  · exact h.slot s (hslot ▸ hs)
  · cases hslot.symm.trans hs

/-- A phase with no other numbers belongs to the same target. -/
theorem Owns.keep (h : N.Owns name p) (hslot : p'.slot? = p.slot? ∨ p'.slot? = none)
    (hhandle : p'.handle? = p.handle? ∨ p'.handle? = none) : N.Owns name p' where
  slot := h.keepSlot hslot
  handle hd hhd := by
    obtain hhandle | hhandle := hhandle
    · exact h.handle hd (hhandle ▸ hhd)
    · cases hhandle.symm.trans hhd

/-- A phase with a slot of the target. -/
theorem Owns.of_slot (hs : N.slot s = some name) (hslot : p.slot? = some s)
    (hhandle : p.handle? = none) : N.Owns name p where
  slot s' hs' := Option.some.inj (hslot.symm.trans hs') ▸ hs
  handle hd hhd := by cases hhandle.symm.trans hhd

/-- A phase with another handle of the target. -/
theorem Owns.of_handle (h : N.Owns name p) {hd : HandleId} (hhd : N.handle hd = some name)
    (hslot : p'.slot? = p.slot? ∨ p'.slot? = none) (hhandle : p'.handle? = some hd) :
    N.Owns name p' where
  slot := h.keepSlot hslot
  handle _ hhd' := Option.some.inj (hhandle.symm.trans hhd') ▸ hhd

/-- A turn deals with what belongs to the target of its call. The handle that it opens is the one
    number that is new. -/
theorem Fits.turn {timeout : Nat} (h : N.Fits st) (htask : st.tasks[c]? = some ⟨r, p⟩)
    (hturn : Turn timeout st c r p p' st')
    (hopened : ∀ {hd name}, st'.opened[hd]? = some name → N.handle hd = some name) :
    N.Fits st' := by
  obtain ⟨name, hr, hc, howns⟩ := h.task htask
  cases hturn with
  -- no event and no slot: what the call had before is what it has now
  | entered | unknown | inactive | failed | discarded =>
    exact h.enter htask hr (howns.keep (.inl rfl) (.inr rfl))
  | asked =>
    exact (h.emit hc (by rintro _ ⟨⟩)).enter htask hr (howns.keep (.inl rfl) (.inr rfl))
  | @alive _ _ s hd =>
    have hhd : N.handle hd = some name := howns.handle hd rfl
    have hprobed : N.Fits (st.emit c (.probed hd true)) := h.emitHandle hc hhd rfl
    exact (hprobed.release (howns.slot s rfl)).useHandle htask hr hhd
  -- the probe, the empty slot and the closing, in the order in which the turn makes them
  | @dead _ _ s hd =>
    have hhd : N.handle hd = some name := howns.handle hd rfl
    have hprobed : N.Fits (st.emit c (.probed hd false)) := h.emitHandle hc hhd rfl
    have hemptied : N.Fits ((st.emit c (.probed hd false)).setEntry s none) :=
      hprobed.setEntry (howns.slot s rfl) (by rintro _ ⟨⟩)
    have hclosed : N.Fits (((st.emit c (.probed hd false)).setEntry s none).emit c (.closed hd)) :=
      hemptied.emitHandle hc hhd rfl
    exact hclosed.enter htask hr (howns.keep (.inl rfl) (.inl rfl))
  -- the number is given out here, so that it is the target's is known of the state after the turn
  | @connected target use s =>
    obtain rfl : target = name := Option.some.inj hr
    have hnew : N.handle st.opened.length = some target := hopened (List.getElem?_concat_length ..)
    have hst : N.Fits { st with opened := st.opened ++ [target] } :=
      ⟨h.task, h.mapped, h.slot, hopened, h.event⟩
    have hemit : N.Fits (State.emit { st with opened := st.opened ++ [target] } c
        (.opened st.opened.length)) :=
      hst.emitHandle hc hnew rfl
    exact hemit.enter htask hr (howns.of_handle hnew (.inl rfl) rfl)
  | @stored _ _ s hd =>
    have hstored : N.Fits (st.setEntry s (some hd)) :=
      h.setEntry (howns.slot s rfl) fun hd hhd => howns.handle hd hhd
    exact (hstored.release (howns.slot s rfl)).useHandle htask hr (howns.handle hd rfl)
  | retried | foundEmpty | peeked =>
    exact (h.release (howns.slot _ rfl)).enter htask hr (howns.keep (.inr rfl) (.inr rfl))
  | left =>
    exact (h.release (howns.slot _ rfl)).enter htask hr (howns.keep (.inr rfl) (.inl rfl))
  | used hreply =>
    exact h.enter htask hr (howns.keep (.inr rfl) (.inr (Use.handle?_outcome? hreply)))
  | @emptied _ s hd _ hentry =>
    have hhd : N.handle hd = some name := (h.ownsSlot (howns.slot s rfl)).entry hd hentry
    have hemptied : N.Fits (st.setEntry s none) := h.setEntry (howns.slot s rfl) (by rintro _ ⟨⟩)
    have hclosed : N.Fits (((st.setEntry s none).release s).emit c (.closed hd)) :=
      (hemptied.release (howns.slot s rfl)).emitHandle hc hhd rfl
    exact hclosed.enter htask hr (howns.of_handle hhd (.inr rfl) rfl)
  | closed => exact h.enter htask hr (howns.keep (.inr rfl) (.inr rfl))
  -- a call that closes all has no target of its own
  | sweptEmpty | swept | sweepClosed | counted => cases hr

/-- A look deals with the slot of the target of its call. The slot that it makes is the one number
    that is new. -/
theorem Fits.look (h : N.Fits st) (htask : st.tasks[c]? = some ⟨r, p⟩)
    (hlook : Look st c r p p' st')
    (hmapped : ∀ {name s}, (name, s) ∈ st'.table.mapped → N.slot s = some name) : N.Fits st' := by
  obtain ⟨name, hr, hc, howns⟩ := h.task htask
  cases hlook with
  -- the call now has the slot of its target, which it did not have before
  | @found target _ s hfind | @present target s hfind =>
    obtain rfl : target = name := Option.some.inj hr
    have hs := h.mapped (Table.mem_of_find? hfind)
    exact h.enter htask hr (.of_slot hs rfl rfl)
  | inUse _ hentry =>
    have hhd := (h.ownsSlot (howns.slot _ rfl)).entry _ hentry
    exact h.enter htask hr (howns.of_handle hhd (.inl rfl) rfl)
  | empty | dropped => exact h.enter htask hr (howns.keep (.inl rfl) (.inr rfl))
  | notMapped | absent => exact h.enter htask hr (howns.keep (.inr rfl) (.inr rfl))
  | @evicted target _ s =>
    -- a slot that is dropped stays among the slots, with what it held
    have hst : N.Fits { st with table := st.table.unmapIfCurrent target s } := by
      refine ⟨h.task, hmapped, ?_, h.opened, h.event⟩
      intro s' slot hslot
      refine h.slot ?_
      simp only [Table.unmapIfCurrent] at hslot
      split at hslot <;> exact hslot
    exact hst.enter htask hr (howns.keep (.inl rfl) (.inr rfl))
  | @unmapped target s hfind =>
    obtain rfl : target = name := Option.some.inj hr
    have hs := h.mapped (Table.mem_of_find? hfind)
    have hst : N.Fits { st with table := st.table.unmap target } :=
      ⟨h.task, hmapped, h.slot, h.opened, h.event⟩
    exact hst.enter htask hr (.of_slot hs rfl rfl)
  | @made target _ hfind =>
    obtain rfl : target = name := Option.some.inj hr
    have hnew : N.slot st.table.slots.length = some target :=
      hmapped (by simp [Table.findOrMake, hfind])
    have hst : N.Fits { st with table := (st.table.findOrMake target).2 } := by
      refine ⟨h.task, hmapped, ?_, h.opened, h.event⟩
      intro s' slot hslot
      simp only [Table.findOrMake, hfind] at hslot
      -- the slots from before keep their numbers, and the new one is empty
      rcases Nat.lt_or_ge s' st.table.slots.length with hlt | hge
      · exact h.slot (by simpa [List.getElem?_append_left hlt] using hslot)
      · obtain ⟨hlt, hget⟩ := List.getElem?_eq_some_iff.1 hslot
        have hlast : s' < st.table.slots.length + 1 := by simpa using hlt
        obtain rfl : s' = st.table.slots.length := Nat.le_antisymm (Nat.le_of_lt_succ hlast) hge
        have hempty : slot = {} := by simpa using hget.symm
        exact ⟨target, hnew, by subst hempty; constructor <;> simp⟩
    exact hst.enter htask hr (.of_slot hnew rfl rfl)
  | unmappedAll | listed => cases hr

/-- Taking a lock, or lining up for it, gives out no number. -/
theorem Fits.lock (h : N.Fits st) (htask : st.tasks[c]? = some ⟨r, p⟩)
    (hwants : p.wants? = some s) :
    N.Fits (st.modifySlot s fun slot => { slot with holder := some c }) ∧
      N.Fits (st.modifySlot s fun slot => { slot with waiting := slot.waiting ++ [c] }) := by
  obtain ⟨name, hr, hc, howns⟩ := h.task htask
  have hs := howns.slot s (Phase.slot?_of_wants? hwants)
  constructor
  · exact h.modifySlot hs fun _ hslot =>
      ⟨hslot.entry, fun d hd => Option.some.inj hd ▸ hc, hslot.waiting⟩
  · refine h.modifySlot hs fun slot hslot => ⟨hslot.entry, hslot.holder, fun d hd => ?_⟩
    rcases List.mem_append.1 hd with hd | hd
    · exact hslot.waiting d hd
    · exact List.mem_singleton.1 hd ▸ hc

/-! ## New numbers -/

/-- Whether an attribution knows of no number that a state has not given out. -/
structure Exact (N : Attribution) (st : State) : Prop where
  task : ∀ c, st.tasks.length ≤ c → N.task c = none
  slot : ∀ s, st.table.slots.length ≤ s → N.slot s = none
  handle : ∀ h, st.opened.length ≤ h → N.handle h = none

theorem Exact.congr (h : N.Exact st) (htasks : st'.tasks.length = st.tasks.length)
    (hslots : st'.table.slots.length = st.table.slots.length)
    (hopened : st'.opened.length = st.opened.length) : N.Exact st' :=
  ⟨fun c hc => h.task c (htasks ▸ hc), fun s hs => h.slot s (hslots ▸ hs),
    fun hd hhd => h.handle hd (hopened ▸ hhd)⟩

theorem update_of_some {owner : Nat → Option String} {k i : Nat} {name' : String}
    (hk : owner k = none) (hi : owner i = some name) :
    Function.update owner k (some name') i = some name := by
  have hne : i ≠ k := by
    rintro rfl
    simp [hk] at hi
  rw [Function.update_of_ne hne, hi]

theorem update_of_lt {owner : Nat → Option String} {k i : Nat} (h : ∀ i, k ≤ i → owner i = none)
    (hi : k + 1 ≤ i) : Function.update owner k (some name) i = none := by
  rw [Function.update_of_ne (by omega), h i (by omega)]

/-- A call on a target gets a number of that target. -/
theorem Fits.submit (h : N.Fits st) (hexact : N.Exact st) (hr : r.target? = some name) :
    ∃ N' : Attribution, N'.Extends N ∧ N'.Fits (st.submit r) ∧ N'.Exact (st.submit r) := by
  let N' : Attribution := { N with task := Function.update N.task st.tasks.length (some name) }
  have hle : N'.Extends N :=
    ⟨fun {c _} hc => update_of_some (hexact.task _ (Nat.le_refl _)) hc, id, id⟩
  have hold := h.mono hle
  refine ⟨N', hle, ⟨fun {c r' p} htask => ?_, hold.mapped, hold.slot, hold.opened, hold.event⟩,
    fun c hc => ?_, hexact.slot, hexact.handle⟩
  · rw [State.submit_tasks] at htask
    rcases Nat.lt_or_ge c st.tasks.length with hlt | hge
    · exact hold.task (by simpa [List.getElem?_append_left hlt] using htask)
    · obtain ⟨hc, rfl, rfl⟩ : c - st.tasks.length = 0 ∧ r = r' ∧ r.begin = p := by
        simpa [List.getElem?_append_right hge, List.getElem?_singleton] using htask
      obtain rfl : c = st.tasks.length := Nat.le_antisymm (Nat.sub_eq_zero_iff_le.1 hc) hge
      exact ⟨name, hr, Function.update_self .., by cases r <;> constructor <;> rintro _ ⟨⟩⟩
  · exact update_of_lt hexact.task (by simpa using hc)

end Attribution

/-- A look maps no target to a slot, or maps the target of its call to a new one. -/
theorem Look.mapped_cases {st st' : State} {c : TaskId} {r : Request} {p p' : Phase}
    (h : Look st c r p p' st') :
    (st'.table.slots.length = st.table.slots.length ∧ ∀ m ∈ st'.table.mapped, m ∈ st.table.mapped) ∨
    ∃ target, r.target? = some target ∧ st'.table.slots.length = st.table.slots.length + 1 ∧
      st'.table.mapped = st.table.mapped ++ [(target, st.table.slots.length)] := by
  cases h with
  | @made target _ hfind =>
    exact .inr ⟨target, rfl, by simp [Table.findOrMake, hfind], by simp [Table.findOrMake, hfind]⟩
  | evicted =>
    refine .inl ⟨?_, fun m hm => ?_⟩
    · simp only [State.enter_table, Table.unmapIfCurrent]
      split <;> rfl
    · simp only [State.enter_table, Table.unmapIfCurrent] at hm
      split at hm
      · exact (List.mem_filter.1 hm).1
      · exact hm
  | unmapped => exact .inl ⟨rfl, fun m hm => (List.mem_filter.1 hm).1⟩
  | unmappedAll => exact .inl ⟨rfl, by simp [Table.unmapAll]⟩
  | _ => exact .inl ⟨rfl, fun _ => id⟩

namespace Attribution

/-- A step gives out no number, or one, which belongs to the target of its call. -/
theorem Fits.step {timeout : Nat} {answer : Answer} (h : N.Fits st) (hexact : N.Exact st)
    (hstep : st.step? timeout c answer = some st') :
    ∃ N' : Attribution, N'.Extends N ∧ N'.Fits st' ∧ N'.Exact st' := by
  obtain ⟨r, p, htask, hmove⟩ := move_of_step hstep
  have hlength {p' : Phase} : (st.tasks.modify c fun t => { t with phase := p' }).length =
      st.tasks.length :=
    List.length_modify ..
  cases hmove with
  | lockTable =>
    exact ⟨N, .refl N, ⟨h.task, h.mapped, h.slot, h.opened, h.event⟩, hexact.congr rfl rfl rfl⟩
  | lock hwants =>
    exact ⟨N, .refl N, (h.lock htask hwants).1, hexact.congr rfl (List.length_modify ..) rfl⟩
  | queue hwants =>
    exact ⟨N, .refl N, (h.lock htask hwants).2, hexact.congr rfl (List.length_modify ..) rfl⟩
  | @look p' st₁ _ hlook =>
    have htasks : st₁.tasks.length = st.tasks.length := hlook.tasks ▸ hlength
    have hopened : st₁.opened = st.opened := by cases hlook <;> rfl
    have hfits {M : Attribution} (hM : M.Fits st₁) :
        M.Fits { st₁ with table := { st₁.table with holder := none } } :=
      ⟨hM.task, hM.mapped, hM.slot, hM.opened, hM.event⟩
    -- only the look that makes a slot gives out a number
    rcases hlook.mapped_cases with ⟨hslots, hmapped⟩ | ⟨target, hr, hslots, hmapped⟩
    · exact ⟨N, .refl N, hfits (h.look htask hlook fun hm => h.mapped (hmapped _ hm)),
        hexact.congr htasks hslots (by rw [hopened])⟩
    · -- the new slot is made for the target of the call
      let N' : Attribution :=
        { N with slot := Function.update N.slot st.table.slots.length (some target) }
      have hle : N'.Extends N :=
        ⟨id, fun hs => update_of_some (hexact.slot _ (Nat.le_refl _)) hs, id⟩
      have hold := h.mono hle
      refine ⟨N', hle, hfits (hold.look htask hlook fun {name s} hm => ?_), fun d hd => ?_,
        fun s hs => ?_, fun hd hhd => ?_⟩
      · rw [hmapped] at hm
        rcases List.mem_append.1 hm with hm | hm
        · exact hold.mapped hm
        · cases List.mem_singleton.1 hm
          exact Function.update_self ..
      · exact hexact.task d (htasks ▸ hd)
      · exact update_of_lt hexact.slot (hslots ▸ hs)
      · exact hexact.handle hd (hopened ▸ hhd)
  | turn hturn =>
    have htasks : st'.tasks.length = st.tasks.length := hturn.tasks ▸ hlength
    have hslots : st'.table.slots.length = st.table.slots.length := by
      rcases hturn.table_cases with ⟨htable, -⟩ | ⟨s, f, -, htable, -⟩
      · rw [htable]
      · rw [htable]
        exact List.length_modify ..
    -- only the turn that connects gives out a number
    rcases hturn.opened with hopened | ⟨target, _, _, _, -, -, -, hopened⟩
    · exact ⟨N, .refl N, h.turn htask hturn fun hhd => h.opened (hopened ▸ hhd),
        hexact.congr htasks hslots (by rw [hopened])⟩
    · let N' : Attribution :=
        { N with handle := Function.update N.handle st.opened.length (some target) }
      have hle : N'.Extends N :=
        ⟨id, id, fun hhd => update_of_some (hexact.handle _ (Nat.le_refl _)) hhd⟩
      have hold := h.mono hle
      refine ⟨N', hle, hold.turn htask hturn fun {hd name} hhd => ?_, fun d hd => ?_,
        fun s hs => ?_, fun hd hhd => ?_⟩
      · rw [hopened] at hhd
        rcases Nat.lt_or_ge hd st.opened.length with hlt | hge
        · exact hold.opened (by simpa [List.getElem?_append_left hlt] using hhd)
        · obtain ⟨hzero, rfl⟩ : hd - st.opened.length = 0 ∧ target = name := by
            simpa [List.getElem?_append_right hge, List.getElem?_singleton] using hhd
          obtain rfl : hd = st.opened.length :=
            Nat.le_antisymm (Nat.sub_eq_zero_iff_le.1 hzero) hge
          exact Function.update_self ..
      · exact hexact.task d (htasks ▸ hd)
      · exact hexact.slot s (hslots ▸ hs)
      · refine update_of_lt hexact.handle ?_
        rwa [hopened, List.length_append, List.length_singleton] at hhd

end Attribution

/-! ## Runs -/

/-- A call that is made, or a step of a task with what lets it go on. -/
inductive Act where
  | call (r : Request)
  | step (c : TaskId) (answer : Answer)

/-- The state after an act, if it is possible. -/
def State.act? (timeout : Nat) (st : State) : Act → Option State
  | .call r => some (st.submit r)
  | .step c answer => st.step? timeout c answer

/-- The state after some acts, if all are possible. -/
def State.play? (timeout : Nat) (st : State) : List Act → Option State
  | [] => some st
  | act :: acts => (st.act? timeout act).bind fun st' => st'.play? timeout acts

section
variable {timeout : Nat} {st st' : State} {act : Act} {acts : List Act}

theorem Run.of_act (h : st.act? timeout act = some st') : Run st st' := by
  cases act with
  | call r =>
    cases h
    exact .submit (.refl _) r
  | step c answer => exact .step (.refl _) h

theorem Run.of_play (h : st.play? timeout acts = some st') : Run st st' := by
  induction acts generalizing st with
  | nil =>
    cases h
    exact .refl _
  | cons act acts ih =>
    obtain ⟨st₁, hact, hrest⟩ := Option.bind_eq_some_iff.1 h
    exact (Run.of_act hact).trans (ih hrest)

end

namespace Attribution

/-- Whether an attribution fits each state on the way of a run. -/
def FitsRun (N : Attribution) (timeout : Nat) (st : State) (acts : List Act) : Prop :=
  ∀ {front st'}, front <+: acts → st.play? timeout front = some st' → N.Fits st'

variable {N : Attribution} {st st' : State} {timeout : Nat} {act : Act} {acts : List Act}

theorem FitsRun.fits (h : N.FitsRun timeout st acts) : N.Fits st :=
  h List.nil_prefix rfl

theorem FitsRun.tail (h : N.FitsRun timeout st (act :: acts))
    (hact : st.act? timeout act = some st') : N.FitsRun timeout st' acts := by
  intro front st₁ hfront hplay
  refine h (List.cons_prefix_cons.2 ⟨rfl, hfront⟩) ?_
  rw [State.play?, hact, Option.bind_some, hplay]

/-- Before the first call no number is given out. -/
theorem exists_exact_start : ∃ N : Attribution, N.Fits {} ∧ N.Exact {} := by
  refine ⟨⟨fun _ => none, fun _ => none, fun _ => none⟩, ?_, fun _ _ => rfl, fun _ _ => rfl,
    fun _ _ => rfl⟩
  constructor <;> simp

end Attribution

end ShellQuery.Cache
