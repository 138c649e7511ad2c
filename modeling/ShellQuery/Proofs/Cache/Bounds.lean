/-
  ShellQuery.Proofs.Cache.Bounds

  How much there is in a cache. Every slot that a task is on its way to was made
  (`Reachable.lt_of_ahead`), and no more targets are mapped than there are calls
  (`Reachable.length_mapped_le`).
-/
import Mathlib.Data.List.Perm.Subperm
import ShellQuery.Proofs.Cache.Attribution

namespace ShellQuery.Cache

variable {timeout : Nat} {st st' : State} {c : TaskId} {r : Request} {p p' : Phase} {s : SlotId}

/-! ## Slots on the way of a task -/

/-- The slots whose locks a task is yet to take. -/
def Phase.ahead : Phase → List SlotId
  | .entering s | .emptying s | .peeking s => [s]
  | .sweeping pending | .sweepClosing _ _ pending | .counting pending _ => pending
  | _ => []

theorem Phase.mem_ahead_of_wants? (h : p.wants? = some s) : s ∈ p.ahead := by
  unfold wants? at h
  split at h
  · cases h
    exact List.mem_singleton_self s
  · cases h
    exact List.mem_singleton_self s
  · cases h
    exact List.mem_singleton_self s
  · cases h
    exact List.mem_cons_self
  · cases h
    exact List.mem_cons_self
  · cases h

@[simp] theorem Phase.ahead_sweep (pending : List SlotId) : (sweep pending).ahead = pending := by
  cases pending <;> rfl

@[simp] theorem Phase.ahead_count (found : Nat) (pending : List SlotId) :
    (count found pending).ahead = pending := by
  cases pending <;> rfl

@[simp] theorem Use.ahead_phase (use : Use) (h : HandleId) : (use.phase h).ahead = [] := by
  cases use <;> rfl

/-- A turn sends a task to no further slot. -/
theorem Turn.ahead (h : Turn timeout st c r p p' st') : p'.ahead ⊆ p.ahead := by
  cases h with
  | alive | stored =>
    rw [Use.ahead_phase]
    exact List.nil_subset _
  | sweptEmpty | counted =>
    simp only [Phase.ahead_sweep, Phase.ahead_count]
    exact List.subset_cons_self _ _
  | swept => exact List.subset_cons_self _ _
  | sweepClosed =>
    rw [Phase.ahead_sweep]
    exact List.Subset.refl _
  | _ => exact List.nil_subset _

/-- A look sends a task to slots that are mapped, to a new one, or to none. -/
theorem Look.ahead (h : Look st c r p p' st') :
    p'.ahead ⊆ st.table.mapped.map Prod.snd ∨
      p'.ahead = [st.table.slots.length] ∧
        st'.table.slots.length = st.table.slots.length + 1 := by
  cases h with
  | made hfind => exact .inr ⟨rfl, by simp [Table.findOrMake, hfind]⟩
  | found hfind | unmapped hfind | present hfind =>
    have hmem := List.mem_map_of_mem (f := Prod.snd) (Table.mem_of_find? hfind)
    exact .inl (List.cons_subset.2 ⟨hmem, List.nil_subset _⟩)
  | unmappedAll horder | listed horder =>
    refine .inl ?_
    simp only [Phase.ahead_sweep, Phase.ahead_count]
    exact horder.subset
  | _ => exact .inl (List.nil_subset _)

theorem Look.length_slots (h : Look st c r p p' st') :
    st.table.slots.length ≤ st'.table.slots.length := by
  rcases h.mapped_cases with ⟨hsame, -⟩ | ⟨-, -, hnew, -⟩ <;> omega

theorem Turn.length_slots (h : Turn timeout st c r p p' st') :
    st'.table.slots.length = st.table.slots.length := by
  rcases h.table_cases with ⟨htable, -⟩ | ⟨s, f, -, htable, -⟩
  · rw [htable]
  · rw [htable]
    exact List.length_modify ..

theorem Reachable.lt_of_mapped (hreach : Reachable st) {target : String}
    (h : (target, s) ∈ st.table.mapped) : s < st.table.slots.length := by
  obtain ⟨owners, hacc⟩ := hreach.account
  have hlt := (List.getElem?_eq_some_iff.1 (hacc.owned h)).1
  rwa [hacc.length, State.length_entries] at hlt

/-- A task is on its way only to slots that were made. -/
theorem Reachable.lt_of_ahead (hreach : Reachable st) (htask : st.tasks[c]? = some ⟨r, p⟩)
    (hs : s ∈ p.ahead) : s < st.table.slots.length := by
  -- of all tasks at once, since it is any of them that a step moves
  have hall : ∀ task ∈ st.tasks, ∀ s ∈ task.phase.ahead, s < st.table.slots.length := by
    clear htask hs
    induction hreach with
    | refl => simp
    | submit _ r ih =>
      intro task hmem s hs
      rcases List.mem_append.1 hmem with hmem | hmem
      · exact ih task hmem s hs
      · obtain rfl := List.mem_singleton.1 hmem
        cases r <;> cases hs
    | @step st' st'' timeout c answer hrun hstep ih =>
      obtain ⟨r, p, htask, hmove⟩ := move_of_step hstep
      have hold := ih _ (List.mem_of_getElem? htask)
      have henter {q : Phase} {after : State}
          (htasks : after.tasks = st'.tasks.modify c fun t => { t with phase := q })
          (hle : st'.table.slots.length ≤ after.table.slots.length)
          (hnew : ∀ s ∈ q.ahead, s < after.table.slots.length) :
          ∀ task ∈ after.tasks, ∀ s ∈ task.phase.ahead, s < after.table.slots.length := by
        intro task hmem
        obtain ⟨d, hd⟩ := List.getElem?_of_mem hmem
        rw [getElem?_of_enter htask htasks] at hd
        split at hd
        · cases hd
          exact hnew
        · exact fun s hs => Nat.lt_of_lt_of_le (ih task (List.mem_of_getElem? hd) s hs) hle
      cases hmove with
      | lockTable => exact ih
      | lock | queue =>
        intro task hmem s hs
        refine Nat.lt_of_lt_of_eq (ih task hmem s hs) ?_
        exact (List.length_modify ..).symm
      | @look q after _ hlook =>
        refine henter hlook.tasks hlook.length_slots fun s hs => ?_
        rcases hlook.ahead with hmapped | ⟨hnew, hlength⟩
        · obtain ⟨⟨target, _⟩, hmem, rfl⟩ := List.mem_map.1 (hmapped hs)
          exact Nat.lt_of_lt_of_le (Reachable.lt_of_mapped hrun hmem) hlook.length_slots
        · rw [hnew] at hs
          obtain rfl := List.mem_singleton.1 hs
          exact Nat.lt_of_lt_of_eq (Nat.lt_succ_self _) hlength.symm
      | turn hturn =>
        refine henter hturn.tasks (Nat.le_of_eq hturn.length_slots.symm) fun s hs => ?_
        rw [hturn.length_slots]
        exact hold s (hturn.ahead hs)
  exact hall _ (List.mem_of_getElem? htask) s hs

/-! ## Mapped targets -/

/-- A target that is mapped was asked for. -/
theorem Reachable.mem_targets (hreach : Reachable st) {target : String}
    (h : (target, s) ∈ st.table.mapped) :
    target ∈ (st.tasks.map Task.request).filterMap Request.target? := by
  induction hreach with
  | refl => cases h
  | submit _ r ih =>
    rw [State.submit_tasks, List.map_append, List.filterMap_append]
    exact List.mem_append_left _ (ih h)
  | @step st' st'' timeout c answer _ hstep ih =>
    rw [State.requests_of_step hstep]
    obtain ⟨r, p, htask, hmove⟩ := move_of_step hstep
    cases hmove with
    | lockTable | lock | queue => exact ih h
    | look _ hlook =>
      rcases hlook.mapped_cases with ⟨-, hsub⟩ | ⟨name, hr, -, hnew⟩
      · exact ih (hsub _ h)
      · -- the new target is that of the call that looks
        replace h := hnew ▸ h
        rcases List.mem_append.1 h with h | h
        · exact ih h
        · cases List.mem_singleton.1 h
          refine List.mem_filterMap.2 ⟨r, ?_, hr⟩
          exact List.mem_map_of_mem (List.mem_of_getElem? htask)
    | turn hturn => exact ih (hturn.mapped ▸ h)

/-- There are no more targets mapped than calls were made. -/
theorem Reachable.length_mapped_le (hreach : Reachable st) :
    st.table.mapped.length ≤ st.tasks.length := by
  obtain ⟨owners, hacc⟩ := hreach.account
  have hsub : st.table.mapped.map Prod.fst ⊆
      (st.tasks.map Task.request).filterMap Request.target? := by
    intro target hmem
    obtain ⟨⟨_, s⟩, hmapped, rfl⟩ := List.mem_map.1 hmem
    exact hreach.mem_targets hmapped
  calc st.table.mapped.length
      = (st.table.mapped.map Prod.fst).length := (List.length_map _).symm
    _ ≤ ((st.tasks.map Task.request).filterMap Request.target?).length :=
        (List.Nodup.subperm hacc.keys hsub).length_le
    _ ≤ (st.tasks.map Task.request).length := List.length_filterMap_le ..
    _ = st.tasks.length := List.length_map ..

end ShellQuery.Cache
