/-
  ShellQuery.Proofs.Cache.Place

  No handle is lost and none is closed twice. A handle that was opened is with the acquisition that
  opened it, in one slot, with the task that closes it, or closed, and only one of these. What a
  slot holds can be found through the table or is closed by a call that is still to come to the
  slot. When no call is in progress, the mapped slots are those of the handles that are open.
-/
import Mathlib.Data.List.Nodup
import Mathlib.Logic.ExistsUnique
import ShellQuery.Proofs.Cache.Account
import ShellQuery.Proofs.Cache.Idle

namespace ShellQuery.Cache

/-! ## Counts of at most one -/

section
variable {α : Type} {q : α → Bool} {l : List α}

/-- Where at most one element is of a kind, it has one place. -/
theorem eq_of_countP_le_one (h : l.countP q ≤ 1) {i j : Nat} {a b : α} (hi : l[i]? = some a)
    (hj : l[j]? = some b) (ha : q a = true) (hb : q b = true) : i = j := by
  induction l generalizing i j with
  | nil => simp at hi
  | cons d l ih =>
    rw [List.countP_cons] at h
    -- an element of the kind in the rest would be a second one
    have hpos {k : Nat} {e : α} (hk : l[k]? = some e) (he : q e = true) : 0 < l.countP q :=
      List.countP_pos_iff.2 ⟨e, List.mem_of_getElem? hk, he⟩
    cases i with
    | zero =>
      cases j with
      | zero => rfl
      | succ j =>
        cases hi
        have := hpos (by simpa using hj) hb
        rw [if_pos ha] at h
        omega
    | succ i =>
      cases j with
      | zero =>
        cases hj
        have := hpos (by simpa using hi) ha
        rw [if_pos hb] at h
        omega
      | succ j =>
        have := ih (by omega) (by simpa using hi) (by simpa using hj)
        omega

theorem exists_of_countP_pos (h : 0 < l.countP q) :
    ∃ (i : Nat) (a : α), l[i]? = some a ∧ q a = true := by
  obtain ⟨a, ha, hq⟩ := List.countP_pos_iff.1 h
  obtain ⟨i, hi⟩ := List.getElem?_of_mem ha
  exact ⟨i, a, hi, hq⟩

theorem countP_pos_of_getElem? {i : Nat} {a : α} (h : l[i]? = some a) (ha : q a = true) :
    0 < l.countP q :=
  List.countP_pos_iff.2 ⟨a, List.mem_of_getElem? h, ha⟩

end

/-! ## Places -/

/-- Where a handle can be. -/
inductive Place where
  /-- With the acquisition that has just opened it. -/
  | held (c : TaskId)
  /-- In a slot. -/
  | cached (s : SlotId)
  /-- With the task that has taken it out of its slot and is closing it. -/
  | taken (c : TaskId)
  /-- Closed for good. -/
  | closed
deriving DecidableEq, Repr

namespace State

/-- Whether a handle is at a place. -/
def At (st : State) (h : HandleId) : Place → Prop
  | .held c => ∃ target use s, st.tasks[c]? = some ⟨.acquire target use, .storing s h⟩
  | .cached s => st.entry s = some h
  | .taken c => ∃ r p, st.tasks[c]? = some ⟨r, p⟩ ∧ p.taken? = some h
  | .closed => 0 < st.closes h ∧ ∀ task ∈ st.tasks, task.phase.taken? ≠ some h

end State

namespace Account

variable {owners : List String} {st : State} {h : HandleId}

theorem count_pos_of_entry {s : SlotId} (he : st.entry s = some h) :
    0 < st.entries.count (some h) := by
  have hs := State.getElem?_entries (Table.lt_of_entry he)
  exact List.count_pos_iff.2 (List.mem_of_getElem? (he ▸ hs))

theorem fresh_pos_of_storing {c : TaskId} {r : Request} {s : SlotId}
    (htask : st.tasks[c]? = some ⟨r, .storing s h⟩) :
    0 < st.tasks.countP (·.phase.fresh? = some h) :=
  countP_pos_of_getElem? htask (by simp [Phase.fresh?])

theorem taken_pos_of_taken {c : TaskId} {r : Request} {p : Phase}
    (htask : st.tasks[c]? = some ⟨r, p⟩) (hp : p.taken? = some h) :
    0 < st.tasks.countP (·.phase.taken? = some h) :=
  countP_pos_of_getElem? htask (by simp [hp])

/-- No handle is in two slots. -/
theorem slot_unique (hacc : Account owners st) {s s' : SlotId} (hs : st.entry s = some h)
    (hs' : st.entry s' = some h) : s = s' := by
  have hbalance := hacc.balance h
  have hle : st.entries.countP (· == some h) ≤ 1 := by
    change st.entries.count (some h) ≤ 1
    split at hbalance <;> omega
  have hi := State.getElem?_entries (Table.lt_of_entry hs)
  have hj := State.getElem?_entries (Table.lt_of_entry hs')
  exact eq_of_countP_le_one hle hi hj (by simp [hs]) (by simp [hs'])

/-- The counts of a handle that was opened tell where it is. -/
theorem exists_place (hacc : Account owners st) (hlt : h < st.opened.length) :
    ∃ place, st.At h place := by
  have hbalance := hacc.balance h
  rw [if_pos hlt] at hbalance
  by_cases hentry : 0 < st.entries.count (some h)
  · obtain ⟨s, hs⟩ := List.getElem?_of_mem (List.count_pos_iff.1 hentry)
    exact ⟨.cached s, by simp [State.At, State.entry_eq, hs]⟩
  by_cases hfresh : 0 < st.tasks.countP (·.phase.fresh? = some h)
  · obtain ⟨c, ⟨r, p⟩, htask, hp⟩ := exists_of_countP_pos hfresh
    have hfits := hacc.fits htask
    cases p with
    | storing s h' =>
      obtain rfl : h' = h := by simpa [Phase.fresh?] using hp
      cases r with
      | acquire target use => exact ⟨.held c, target, use, s, htask⟩
      | _ => exact hfits.elim
    | _ => simp [Phase.fresh?] at hp
  by_cases htaken : 0 < st.tasks.countP (·.phase.taken? = some h)
  · obtain ⟨c, ⟨r, p⟩, htask, hp⟩ := exists_of_countP_pos htaken
    exact ⟨.taken c, r, p, htask, by simpa using hp⟩
  · refine ⟨.closed, by omega, fun task hmem hp => htaken ?_⟩
    exact List.countP_pos_iff.2 ⟨task, hmem, by simpa using hp⟩

/-- A handle that is at two places would be counted twice. -/
theorem place_unique (hacc : Account owners st) {place place' : Place} (hp : st.At h place)
    (hp' : st.At h place') : place = place' := by
  have hbalance := hacc.balance h
  have htaken := hacc.taken h
  have hone : st.entries.count (some h) + st.tasks.countP (·.phase.fresh? = some h) +
      st.closes h ≤ 1 := by
    split at hbalance <;> omega
  -- which count each place adds to
  have hheld {c : TaskId} (hp : st.At h (.held c)) :
      0 < st.tasks.countP (·.phase.fresh? = some h) := by
    obtain ⟨target, use, s, htask⟩ := hp
    exact fresh_pos_of_storing htask
  have hcached {s : SlotId} (hp : st.At h (.cached s)) : 0 < st.entries.count (some h) :=
    count_pos_of_entry hp
  have htake {c : TaskId} (hp : st.At h (.taken c)) : 0 < st.closes h := by
    obtain ⟨r, p, htask, hp⟩ := hp
    exact Nat.lt_of_lt_of_le (taken_pos_of_taken htask hp) htaken
  have hclosed (hp : st.At h .closed) : 0 < st.closes h := hp.1
  cases place with
  | held c =>
    have hc := hheld hp
    cases place' with
    | held d =>
      obtain ⟨target, use, s, htask⟩ := hp
      obtain ⟨target', use', s', htask'⟩ := hp'
      have hle : st.tasks.countP (·.phase.fresh? = some h) ≤ 1 := by omega
      exact congrArg _ (eq_of_countP_le_one hle htask htask' (by simp [Phase.fresh?])
        (by simp [Phase.fresh?]))
    | cached => have := hcached hp'; omega
    | taken => have := htake hp'; omega
    | closed => have := hclosed hp'; omega
  | cached s =>
    have hs := hcached hp
    cases place' with
    | held => have := hheld hp'; omega
    | cached => exact congrArg _ (hacc.slot_unique hp hp')
    | taken => have := htake hp'; omega
    | closed => have := hclosed hp'; omega
  | taken c =>
    have hc := htake hp
    cases place' with
    | held => have := hheld hp'; omega
    | cached => have := hcached hp'; omega
    | taken d =>
      obtain ⟨r, p, htask, hp⟩ := hp
      obtain ⟨r', p', htask', hp'⟩ := hp'
      have hle : st.tasks.countP (·.phase.taken? = some h) ≤ 1 := by omega
      exact congrArg _ (eq_of_countP_le_one hle htask htask' (by simp [hp]) (by simp [hp']))
    | closed =>
      obtain ⟨r, p, htask, hp⟩ := hp
      exact absurd hp (hp'.2 _ (List.mem_of_getElem? htask))
  | closed =>
    have hc := hclosed hp
    cases place' with
    | held => have := hheld hp'; omega
    | cached => have := hcached hp'; omega
    | taken d =>
      obtain ⟨r, p, htask, hp'⟩ := hp'
      exact absurd hp' (hp.2 _ (List.mem_of_getElem? htask))
    | closed => rfl

end Account

/-! ## What is doomed is closed -/

theorem Move.closes_le {timeout : Nat} {st st' : State} {c : TaskId} {r : Request} {p : Phase}
    (h : Move timeout st c r p st') (hd : HandleId) : st.closes hd ≤ st'.closes hd :=
  h.events.sublist.countP_le

/-- A task that will empty a slot still will after a step, or the handle there is closed. -/
theorem Account.doomed_move {owners : List String} {timeout : Nat} {st st' : State}
    {c d : TaskId} {r r' : Request} {p q : Phase} {s : SlotId} {h : HandleId}
    (hacc : Account owners st) (htask : st.tasks[c]? = some ⟨r, p⟩)
    (hmove : Move timeout st c r p st') (htask' : st.tasks[d]? = some ⟨r', q⟩)
    (hpending : s ∈ q.pending) (hentry : st.entry s = some h) :
    0 < st'.closes h ∨
      (st'.entry s = some h ∧ ∃ q', st'.tasks[d]? = some ⟨r', q'⟩ ∧ s ∈ q'.pending) := by
  -- a step with an effect closes what it takes out of the slot
  have hchanged {owners' : List String} {p' : Phase} {st'' : State}
      (heffect : Effect owners owners' st r p p' st'')
      (htasks : st''.tasks = st.tasks.modify c fun t => { t with phase := p' }) :
      0 < st''.closes h ∨
        (st''.entry s = some h ∧ ∃ q', st''.tasks[d]? = some ⟨r', q'⟩ ∧ s ∈ q'.pending) := by
    rcases heffect.kept hentry with hentry' | hclosed
    · refine .inr ⟨hentry', ?_⟩
      by_cases hd : d = c
      · subst hd
        cases htask.symm.trans htask'
        refine ⟨p', getElem?_self_of_enter htask htasks, ?_⟩
        have hunmapped : s < owners.length ∧ ¬ st.Mapped s := hacc.pending_unmapped htask hpending
        -- the task itself: a slot out of the table does not come back, and this one is not empty
        rcases heffect.tracked (.inr hpending) with hmapped | hpending' | ⟨hnone, -⟩
        · exact absurd hmapped (heffect.unmapped hunmapped.1 hunmapped.2)
        · exact hpending'
        · simp [hnone] at hentry'
      · exact ⟨q, (getElem?_of_enter_of_ne htask htasks hd).trans htask', hpending⟩
    · exact .inl (Nat.zero_lt_of_lt hclosed)
  cases hmove with
  | lockTable => exact .inr ⟨hentry, q, htask', hpending⟩
  | lock | queue =>
    refine .inr ⟨?_, q, htask', hpending⟩
    refine (State.entry_congr (State.entries_modifySlot ?_) s).trans hentry
    exact fun _ => rfl
  | look hholder hlook =>
    obtain ⟨owners', heffect⟩ := hacc.effect_of_look htask hlook
    have hafter := hchanged heffect hlook.tasks
    exact hafter
  | turn hturn => exact hchanged (hacc.effect_of_turn htask hturn) hturn.tasks

/-- The handle in a slot that a task will empty is closed when that task is done. -/
theorem closes_of_doomed {st st' : State} {d : TaskId} {r : Request} {q : Phase} {s : SlotId}
    {h : HandleId} (hreach : Reachable st) (hrun : Run st st') (htask : st.tasks[d]? = some ⟨r, q⟩)
    (hpending : s ∈ q.pending) (hentry : st.entry s = some h) :
    0 < st'.closes h ∨
      (st'.entry s = some h ∧ ∃ q', st'.tasks[d]? = some ⟨r, q'⟩ ∧ s ∈ q'.pending) := by
  induction hrun with
  | refl => exact .inr ⟨hentry, q, htask, hpending⟩
  | submit _ r' ih =>
    refine ih.imp_right fun ⟨hentry', q', htask', hpending'⟩ => ?_
    obtain ⟨hd, -⟩ := List.getElem?_eq_some_iff.1 htask'
    exact ⟨hentry', q', by simpa [List.getElem?_append_left hd] using htask', hpending'⟩
  | step hrun hstep ih =>
    obtain ⟨r', p, hmoved, hmove⟩ := move_of_step hstep
    rcases ih with hclosed | ⟨hentry', q', htask', hpending'⟩
    · exact .inl (Nat.lt_of_lt_of_le hclosed (hmove.closes_le h))
    · obtain ⟨owners, hacc⟩ := Reachable.account (hreach.trans hrun)
      exact hacc.doomed_move hmoved hmove htask' hpending' hentry'

/-! ## Between calls -/

namespace State

/-- The handles that were opened and not closed. -/
def live (st : State) : List HandleId :=
  (List.range st.opened.length).filter (st.closes · = 0)

theorem mem_live {st : State} {h : HandleId} :
    h ∈ st.live ↔ h < st.opened.length ∧ st.closes h = 0 := by
  simp [live]

theorem nodup_live (st : State) : st.live.Nodup :=
  List.nodup_range.filter _

end State

namespace Account

variable {owners : List String} {st : State}

/-- Between calls a mapped slot holds a handle. -/
theorem entry_ne_none_of_idle (hacc : Account owners st) (hidle : st.Idle) {s : SlotId}
    (hs : st.Mapped s) : st.entry s ≠ none := by
  intro hnone
  obtain ⟨c, ⟨r, p⟩, htask, htends⟩ := hacc.tended hs hnone
  have hover := hidle _ (List.mem_of_getElem? htask)
  cases p <;> simp [Phase.isOver, Phase.tends?] at hover htends

/-- Between calls a slot that holds a handle is mapped. -/
theorem mapped_of_idle (hacc : Account owners st) (hidle : st.Idle) {s : SlotId} {h : HandleId}
    (he : st.entry s = some h) : st.Mapped s := by
  refine (hacc.tracked he).resolve_right fun ⟨c, task, htask, hpending⟩ => ?_
  have hover := hidle _ (List.mem_of_getElem? htask)
  cases hp : task.phase <;> simp [hp, Phase.isOver, Phase.pending] at hover hpending

/-- A handle that is in a slot is open. -/
theorem mem_live_of_entry (hacc : Account owners st) {s : SlotId} {h : HandleId}
    (he : st.entry s = some h) : h ∈ st.live := by
  have hbalance := hacc.balance h
  have hpos := count_pos_of_entry he
  by_cases hlt : h < st.opened.length
  · rw [if_pos hlt] at hbalance
    exact State.mem_live.2 ⟨hlt, by omega⟩
  · rw [if_neg hlt] at hbalance
    omega

/-- Between calls an open handle is in a slot. -/
theorem exists_entry_of_idle (hacc : Account owners st) (hidle : st.Idle) {h : HandleId}
    (hlive : h ∈ st.live) : ∃ s, st.entry s = some h := by
  obtain ⟨hlt, hopen⟩ := State.mem_live.1 hlive
  obtain ⟨place, hplace⟩ := hacc.exists_place hlt
  have hover {c : TaskId} {r : Request} {p : Phase} (htask : st.tasks[c]? = some ⟨r, p⟩) :
      p.isOver = true := hidle _ (List.mem_of_getElem? htask)
  cases place with
  | cached s => exact ⟨s, hplace⟩
  | held c =>
    obtain ⟨target, use, s, htask⟩ := hplace
    cases hover htask
  | taken c =>
    obtain ⟨r, p, htask, htaken⟩ := hplace
    have hp := hover htask
    cases p <;> simp [Phase.isOver, Phase.taken?] at hp htaken
  | closed => exact absurd hopen (Nat.ne_of_gt hplace.1)

/-- Between calls the mapped slots are those of the open handles, one for each. -/
theorem entries_perm_of_idle (hacc : Account owners st) (hidle : st.Idle) :
    (st.table.mapped.map fun e => st.entry e.2).Perm (st.live.map some) := by
  have hslot {e : String × SlotId} (he : e ∈ st.table.mapped) : ∃ h, st.entry e.2 = some h :=
    Option.ne_none_iff_exists'.1 (hacc.entry_ne_none_of_idle hidle ⟨e.1, he⟩)
  refine (List.perm_ext_iff_of_nodup ?_ ?_).2 fun e => ?_
  · refine List.Nodup.map_on ?_ (List.Nodup.of_map _ hacc.keys)
    intro ⟨name, s⟩ hmem ⟨name', s'⟩ hmem' heq
    obtain ⟨h, he⟩ := hslot hmem
    obtain rfl : s = s' := hacc.slot_unique he (heq ▸ he)
    have hname : name = name' := Option.some.inj ((hacc.owned hmem).symm.trans (hacc.owned hmem'))
    rw [hname]
  · exact st.nodup_live.map fun _ _ => Option.some.inj
  · constructor
    · intro he
      obtain ⟨m, hmem, rfl⟩ := List.mem_map.1 he
      obtain ⟨h, he⟩ := hslot hmem
      exact he ▸ List.mem_map_of_mem (hacc.mem_live_of_entry he)
    · intro he
      obtain ⟨h, hlive, rfl⟩ := List.mem_map.1 he
      obtain ⟨s, hs⟩ := hacc.exists_entry_of_idle hidle hlive
      obtain ⟨name, hmem⟩ := hacc.mapped_of_idle hidle hs
      exact hs ▸ List.mem_map_of_mem hmem

/-- Between calls the handles in slots are the open ones. -/
theorem entries_filter_perm_of_idle (hacc : Account owners st) (hidle : st.Idle) :
    (st.entries.filter Option.isSome).Perm (st.live.map some) := by
  have hmem {h : HandleId} : some h ∈ st.entries ↔ h ∈ st.live := by
    constructor
    · intro he
      obtain ⟨s, hs⟩ := List.getElem?_of_mem he
      have he : st.entry s = some h := by rw [State.entry_eq, hs]; rfl
      exact hacc.mem_live_of_entry he
    · intro hlive
      obtain ⟨s, hs⟩ := hacc.exists_entry_of_idle hidle hlive
      exact List.count_pos_iff.1 (count_pos_of_entry hs)
  refine (List.perm_ext_iff_of_nodup ?_ (st.nodup_live.map fun _ _ => Option.some.inj)).2 fun e => ?_
  · refine List.nodup_iff_count_le_one.2 fun e => ?_
    cases e with
    | none => simp [List.count_eq_zero.2]
    | some h =>
      have hbalance := hacc.balance h
      have hle := (List.filter_sublist (l := st.entries) (p := Option.isSome)).count_le (some h)
      split at hbalance <;> omega
  · cases e <;> simp [hmem]

theorem handles_perm_of_idle (hacc : Account owners st) (hidle : st.Idle) :
    st.table.handles.Perm st.live := by
  have hperm := (hacc.entries_perm_of_idle hidle).filterMap id
  change (st.table.mapped.filterMap fun e => st.entry e.2).Perm st.live
  simpa [List.filterMap_map, Function.comp_def] using hperm

end Account

/-! ## Every handle is accounted for -/

/-- Whether a call of close for a target, or of close for all, is on its way to a slot, and closes
    the handle there before it is done, whatever happens until then. -/
def State.WillClose (st : State) (target : String) (s : SlotId) (h : HandleId) : Prop :=
  ∃ (c : TaskId) (r : Request) (p : Phase), st.tasks[c]? = some ⟨r, p⟩ ∧
    (r = .close target ∨ r = .closeAll) ∧ s ∈ p.pending ∧
    ∀ st', Run st st' → (∃ p', st'.tasks[c]? = some ⟨r, p'⟩ ∧ p'.isOver = true) →
      0 < st'.closes h

/-- A task that will empty a slot is a call of close, for the target of the slot or for all. -/
theorem Account.request_of_pending {owners : List String} {st : State} {c : TaskId} {r : Request}
    {p : Phase} {s : SlotId} {target : String} (hacc : Account owners st)
    (htask : st.tasks[c]? = some ⟨r, p⟩) (hpending : s ∈ p.pending)
    (howner : owners[s]? = some target) : r = .close target ∨ r = .closeAll := by
  have hfits := hacc.fits htask
  cases p with
  | emptying s' =>
    obtain rfl : s = s' := List.mem_singleton.1 hpending
    cases r with
    | close name => exact .inl (congrArg _ (Option.some.inj (hfits.1.symm.trans howner)))
    | _ => exact hfits.elim
  | sweeping | sweepClosing =>
    cases r with
    | closeAll => exact .inr rfl
    | _ => exact hfits.elim
  | _ => cases hpending

theorem Reachable.willClose {owners : List String} {st : State} {s : SlotId} {h : HandleId}
    {target : String} (hreach : Reachable st) (hacc : Account owners st)
    (howner : owners[s]? = some target) (hentry : st.entry s = some h) (hdoomed : st.Doomed s) :
    st.WillClose target s h := by
  obtain ⟨c, ⟨r, p⟩, htask, hpending⟩ := hdoomed
  refine ⟨c, r, p, htask, hacc.request_of_pending htask hpending howner, hpending, ?_⟩
  rintro st' hrun ⟨p', htask', hover⟩
  refine (closes_of_doomed hreach hrun htask hpending hentry).resolve_right ?_
  rintro ⟨-, q, htask'', hpending'⟩
  cases htask'.symm.trans htask''
  cases p' <;> simp [Phase.isOver, Phase.pending] at hover hpending'

/-- In every state that calls of the cache can come to, in any order of their steps: a handle that
    was opened is at one place; a slot that holds one is that of its target in the table, or a call
    of close closes the handle; no handle is closed twice; and between calls the mapped slots hold
    one open handle each, all of them, and a count comes to their number. -/
theorem Reachable.handles_accounted {st : State} (hreach : Reachable st) :
    (∀ h < st.opened.length, ∃! place, st.At h place) ∧
    (∀ s h, st.entry s = some h → ∃ target, st.opened[h]? = some target ∧
      (st.table.find? target = some s ∨ st.WillClose target s h)) ∧
    (∀ h, st.closes h ≤ 1) ∧
    (st.Idle →
      (st.table.mapped.map fun e => st.entry e.2).Perm (st.live.map some) ∧
      (st.entries.filter Option.isSome).Perm (st.live.map some) ∧
      ∀ timeout n, 2 * st.table.mapped.length + 2 ≤ n →
        ((st.submit .count).runAlone timeout st.tasks.length n).tasks[st.tasks.length]?.bind
          Task.reply? = some (.counted st.live.length)) := by
  obtain ⟨owners, hacc⟩ := hreach.account
  refine ⟨fun h hlt => ?_, fun s h hentry => ?_, fun h => ?_, fun hidle => ⟨?_, ?_, ?_⟩⟩
  · obtain ⟨place, hplace⟩ := hacc.exists_place hlt
    exact ⟨place, hplace, fun place' hplace' => hacc.place_unique hplace' hplace⟩
  · obtain ⟨target, howner, hopened⟩ := hacc.cached hentry
    refine ⟨target, hopened, ?_⟩
    rcases hacc.tracked hentry with ⟨name, hmem⟩ | hdoomed
    · have hname : name = target := Option.some.inj ((hacc.owned hmem).symm.trans howner)
      exact .inl (Table.find?_of_mem hacc.keys (hname ▸ hmem))
    · exact .inr (hreach.willClose hacc howner hentry hdoomed)
  · have hbalance := hacc.balance h
    split at hbalance <;> omega
  · exact hacc.entries_perm_of_idle hidle
  · exact hacc.entries_filter_perm_of_idle hidle
  · intro timeout n hn
    have hmapped {target : String} {s : SlotId} (hs : (target, s) ∈ st.table.mapped) :
        s < st.table.slots.length := by
      obtain ⟨hlt, -⟩ := List.getElem?_eq_some_iff.1 (hacc.owned hs)
      rwa [hacc.length, State.length_entries] at hlt
    rw [State.runAlone_of_idle hreach.locks hidle hmapped hn,
      (hacc.handles_perm_of_idle hidle).length_eq]

/-- A cache after its first call: the handle that was acquired is in the slot of its target. -/
def State.acquired : State where
  table := { mapped := [("a", 0)], slots := [{ entry := some 0 }] }
  tasks := [⟨.acquire "a" .keep, .finished (.handle 0)⟩]
  opened := ["a"]
  events := [(0, .connect "a" ⟨"h", none, "n", true⟩ 100), (0, .opened 0)]

theorem reachable_acquired : Reachable .acquired := by
  have hsteps : (State.submit {} (.acquire "a" .keep)).steps? 100 (State.asking 0 ⟨"h", none, "n",
    true⟩ ++ [(0, .connected), (0, .proceed)]) = some .acquired := rfl
  exact (Run.submit (.refl {}) _).trans (.of_steps hsteps)

theorem handles_accounted_acquired :
    Reachable .acquired ∧ State.acquired.Idle ∧ (∃! place, State.acquired.At 0 place) ∧
      (State.acquired.table.mapped.map fun e => State.acquired.entry e.2).Perm [some 0] ∧
      ((State.acquired.submit .count).runAlone 100 1 4).tasks[1]?.bind Task.reply? =
        some (.counted 1) := by
  have hidle : State.acquired.Idle := by simp [State.Idle, State.acquired, Phase.isOver]
  obtain ⟨hplace, -, -, hbetween⟩ := reachable_acquired.handles_accounted
  obtain ⟨hmapped, -, hcount⟩ := hbetween hidle
  exact ⟨reachable_acquired, hidle, hplace 0 (by decide), hmapped, hcount 100 4 (by decide)⟩

end ShellQuery.Cache
