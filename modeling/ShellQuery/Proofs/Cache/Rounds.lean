/-
  ShellQuery.Proofs.Cache.Rounds

  How often an acquisition begins again. Its slot is stale once its target is mapped to it no
  longer, which takes a removal of the target's slot (`find?_of_act`). A stale slot is given up for
  one more round, which begins with the slot that the target is mapped to then, so that each round
  but the first is paid for by a removal of its own (`tally_beginsRound_le`).
-/
import ShellQuery.Proofs.Cache.Attribution

namespace ShellQuery.Cache

variable {timeout : Nat} {st st' : State} {c d : TaskId} {r : Request} {p p' : Phase}
  {target : String} {s : SlotId} {use : Use} {act : Act} {acts : List Act}

/-! ## Removals -/

namespace Phase

/-- Whether the next look of a task at the table may drop slots. -/
def drops : Phase → Bool
  | .evicting _ _ | .unmapping | .unmappingAll => true
  | _ => false

/-- Whether a task is about to find the slot of its target. -/
def isFinding : Phase → Bool
  | .finding => true
  | _ => false

end Phase

@[simp] theorem Use.isFinding_phase (use : Use) (h : HandleId) :
    (use.phase h).isFinding = false := by
  cases use <;> rfl

theorem Table.find?_unmap_of_ne {t : Table} {name : String} (h : target ≠ name) :
    (t.unmap name).find? target = t.find? target := by
  simp only [unmap, find?]
  induction t.mapped with
  | nil => rfl
  | cons entry mapped ih =>
    obtain ⟨key, s⟩ := entry
    by_cases hkey : key = name
    · -- the entry that goes is not the one that is looked for
      subst hkey
      have hother : (target == key) = false := beq_eq_false_iff_ne.2 h
      simpa [List.lookup_cons, hother] using ih
    · simp only [List.filter_cons, List.lookup_cons, ne_eq, hkey, not_false_eq_true, decide_true,
        if_pos, ih]

/-- Whether the next look of a task at the table may drop the slot of a target: it closes the target
    or all, or it has failed to connect to the target. -/
def Task.removes (target : String) : Task → Bool
  | ⟨.acquire name _, .evicting _ _⟩ | ⟨.close name, .unmapping⟩ => name = target
  | ⟨.closeAll, .unmappingAll⟩ => true
  | _ => false

theorem Task.drops_of_removes {task : Task} (h : task.removes target = true) :
    task.phase.drops = true := by
  unfold Task.removes at h
  split at h <;> first | rfl | cases h

/-- A look leads a target away from its slot only by dropping it. -/
theorem Look.find?_of_some (h : Look st c r p p' st') (hfind : st.table.find? target = some s) :
    st'.table.find? target = some s ∨
      Task.removes target ⟨r, p⟩ = true ∧ st'.table.find? target = none := by
  have hunmap : ∀ name, (st.table.unmap name).find? target = some s ∨
      decide (name = target) = true ∧ (st.table.unmap name).find? target = none := by
    intro name
    by_cases hname : target = name
    · exact .inr ⟨decide_eq_true hname.symm, hname ▸ Table.find?_unmap_self ..⟩
    · exact .inl ((Table.find?_unmap_of_ne hname).trans hfind)
  cases h with
  | @made name _ hnone =>
    -- a new target comes behind those that are mapped
    refine .inl ?_
    simp only [State.enter_table, Table.findOrMake, hnone]
    simp only [Table.find?] at hfind ⊢
    rw [List.lookup_append, hfind]
    rfl
  | @evicted name _ s' =>
    -- an acquisition that has failed drops its own slot only
    simp only [State.enter_table, Table.unmapIfCurrent]
    split
    · exact hunmap name
    · exact .inl hfind
  | @unmapped name => exact hunmap name
  | unmappedAll => exact .inr ⟨rfl, rfl⟩
  | _ => exact .inl hfind

theorem Move.find?_of_some (h : Move timeout st c r p st')
    (hfind : st.table.find? target = some s) :
    st'.table.find? target = some s ∨
      Task.removes target ⟨r, p⟩ = true ∧ st'.table.find? target = none := by
  cases h with
  | lockTable | lock | queue => exact .inl hfind
  | look _ hlook => exact hlook.find?_of_some hfind
  | turn hturn =>
    refine .inl ?_
    rw [Table.find?, hturn.mapped]
    exact hfind

/-- The slot of a target stays mapped until a task drops it. -/
theorem State.find?_of_act (hact : st.act? timeout act = some st')
    (hfind : st.table.find? target = some s) :
    st'.table.find? target = some s ∨ st'.table.find? target = none ∧
      ∃ d answer task, act = .step d answer ∧ st.tasks[d]? = some task ∧
        task.removes target = true := by
  cases act with
  | call r =>
    cases hact
    exact .inl hfind
  | step d answer =>
    obtain ⟨r, p, htask, hmove⟩ := move_of_step hact
    exact (hmove.find?_of_some hfind).imp_right fun ⟨hremoves, hnone⟩ =>
      ⟨hnone, d, answer, _, rfl, htask, hremoves⟩

/-! ## Stale slots -/

/-- Whether a task is on its way to a slot, or back from it, that its target is no longer mapped
    to. -/
def Table.isStale (t : Table) : Request → Phase → Bool
  | .acquire target _, .entering s | .acquire target _, .checking s => !t.isCurrent target s
  | .acquire _ _, .leaving _ none => true
  | _, _ => false

/-- A slot does not become stale while its target stays mapped to it. -/
theorem Table.isStale_of_kept {t t' : Table}
    (hkeep : ∀ s, t.find? target = some s → t'.find? target = some s)
    (h : t'.isStale (.acquire target use) p = true) : t.isStale (.acquire target use) p = true := by
  cases p with
  | entering s | checking s =>
    simp only [isStale, isCurrent, Bool.not_eq_true', decide_eq_false_iff_not] at h ⊢
    exact fun hfind => h (hkeep s hfind)
  | leaving s reply => cases reply <;> exact h
  | _ => cases h

theorem Table.isStale_use (t : Table) (r : Request) (use : Use) (h : HandleId) :
    t.isStale r (use.phase h) = false := by
  cases r <;> cases use <;> rfl

/-- A look goes to the slot that the target is mapped to, and begins no round. -/
theorem Look.isStale (h : Look st c r p p' st') :
    p'.isFinding = false ∧ (st'.table.isStale r p' = true → st.table.isStale r p = true) := by
  cases h with
  | found hfind => simp [Phase.isFinding, Table.isStale, Table.isCurrent, hfind]
  | @made target _ hfind =>
    have hmade := Table.find?_findOrMake st.table target
    simp only [Table.findOrMake, hfind] at hmade
    simp [Phase.isFinding, Table.isStale, Table.isCurrent, Table.findOrMake, hfind, hmade]
  | dropped hfind => simp [Phase.isFinding, Table.isStale, Table.isCurrent, hfind]
  | @unmappedAll pending => cases pending <;> exact ⟨rfl, id⟩
  | @listed pending => cases pending <;> exact ⟨rfl, id⟩
  | _ => exact ⟨rfl, fun h => absurd h Bool.false_ne_true⟩

/-- A turn begins a round only by giving up a stale slot. -/
theorem Turn.isStale (h : Turn timeout st c r p p' st') :
    (p'.isFinding = true → st.table.isStale r p = true ∧ st'.table.isStale r p' = false) ∧
      (st'.table.isStale r p' = true → st.table.isStale r p = true) := by
  have hnever {q : Prop} (h : false = true) : q := absurd h Bool.false_ne_true
  cases h with
  | entered => exact ⟨hnever, id⟩
  | retried => exact ⟨fun _ => ⟨rfl, rfl⟩, hnever⟩
  | alive | stored =>
    rw [Use.isFinding_phase, Table.isStale_use]
    exact ⟨hnever, hnever⟩
  | @sweptEmpty _ pending | @sweepClosed _ _ pending => cases pending <;> exact ⟨hnever, hnever⟩
  | @counted _ pending => cases pending <;> exact ⟨hnever, hnever⟩
  | _ => exact ⟨hnever, hnever⟩

/-- What a step of a task makes of its round. -/
theorem Move.isStale (htask : st.tasks[c]? = some ⟨r, p⟩) (h : Move timeout st c r p st') :
    ∃ p', st'.tasks[c]? = some ⟨r, p'⟩ ∧
      (p'.isFinding = true → p.isFinding = true ∨
        st.table.isStale r p = true ∧ st'.table.isStale r p' = false) ∧
      (st'.table.isStale r p' = true → st.table.isStale r p = true) := by
  cases h with
  | lockTable | lock | queue => exact ⟨p, htask, .inl, id⟩
  | @look q _ _ hlook =>
    obtain ⟨hfinding, hstale⟩ := hlook.isStale
    refine ⟨q, getElem?_self_of_enter htask hlook.tasks, fun h => ?_, hstale⟩
    rw [hfinding] at h
    cases h
  | @turn q _ hturn =>
    obtain ⟨hfinding, hstale⟩ := hturn.isStale
    exact ⟨q, getElem?_self_of_enter htask hturn.tasks, fun h => .inr (hfinding h), hstale⟩

/-! ## Rounds and removals -/

namespace State

/-- Whether a call has been made and has not returned. -/
def inProgress (st : State) (c : TaskId) : Bool :=
  st.tasks[c]?.any fun task => !task.phase.isOver

/-- Whether a task is about to find the slot of its target. -/
def isFinding (st : State) (c : TaskId) : Bool :=
  st.tasks[c]?.any (·.phase.isFinding)

/-- Whether a task deals with a stale slot. -/
def isStale (st : State) (c : TaskId) : Bool :=
  st.tasks[c]?.any fun task => st.table.isStale task.request task.phase

/-- Whether a task begins a round of its loop between two states. -/
def beginsRound (c : TaskId) (st st' : State) : Bool :=
  st'.isFinding c && !st.isFinding c

/-- Whether the slot of a target is removed between two states, while a call is in progress. -/
def removes (c : TaskId) (target : String) (st st' : State) : Bool :=
  st.inProgress c && (st.table.find? target).isSome && (st'.table.find? target).isNone

/-- What removes the slot of a target is a call that closes it, or an acquisition that has failed. -/
theorem exists_removes (hact : st.act? timeout act = some st')
    (h : removes c target st st' = true) :
    ∃ d answer task, act = .step d answer ∧ st.tasks[d]? = some task ∧
      task.removes target = true := by
  simp only [removes, Bool.and_eq_true, Option.isSome_iff_exists, Option.isNone_iff_eq_none] at h
  obtain ⟨⟨-, s, hfind⟩, hnone⟩ := h
  rcases find?_of_act hact hfind with hsame | ⟨-, hremoves⟩
  · cases hsame.symm.trans hnone
  · exact hremoves

theorem inProgress_of_isStale (h : st.isStale c = true) : st.inProgress c = true := by
  simp only [isStale, inProgress, Option.any_eq_true] at h ⊢
  obtain ⟨⟨r, p⟩, htask, hstale⟩ := h
  refine ⟨⟨r, p⟩, htask, ?_⟩
  cases p with
  | entering | checking | leaving => rfl
  | _ => cases r <;> cases hstale

/-- The task of an acquisition after an act. A round that begins gives up a stale slot. -/
theorem exists_phase_of_act (htask : st.tasks[c]? = some ⟨.acquire target use, p⟩)
    (hact : st.act? timeout act = some st') :
    ∃ p', st'.tasks[c]? = some ⟨.acquire target use, p'⟩ ∧
      (beginsRound c st st' = true → st.isStale c = true ∧ st'.isStale c = false) ∧
      (st'.isStale c = true → st.isStale c = true ∨ removes c target st st' = true) := by
  -- what others do leaves the phase as it is, and may remove the slot
  have hother (htask' : st'.tasks[c]? = some ⟨.acquire target use, p⟩) :
      (beginsRound c st st' = true → st.isStale c = true ∧ st'.isStale c = false) ∧
        (st'.isStale c = true → st.isStale c = true ∨ removes c target st st' = true) := by
    refine ⟨fun h => ?_, fun h => ?_⟩
    · simp [beginsRound, isFinding, htask, htask'] at h
    · by_cases hremoves : (st.table.find? target).isSome = true ∧
        (st'.table.find? target).isNone = true
      · have hprogress : st.inProgress c = true := by
          have hprogress' := inProgress_of_isStale h
          rw [inProgress, htask'] at hprogress'
          rw [inProgress, htask]
          exact hprogress'
        exact .inr (by simp [removes, hprogress, hremoves])
      · refine .inl ?_
        simp only [isStale, htask, htask', Option.any_some] at h ⊢
        refine Table.isStale_of_kept (fun s hfind => ?_) h
        rcases find?_of_act hact hfind with hsame | ⟨hnone, -⟩
        · exact hsame
        · exact absurd ⟨by rw [hfind]; rfl, by rw [hnone]; rfl⟩ hremoves
  cases act with
  | call r =>
    cases hact
    have htask' : (st.submit r).tasks[c]? = some ⟨.acquire target use, p⟩ := by
      rw [submit_tasks, List.getElem?_append_left (List.getElem?_eq_some_iff.1 htask).1, htask]
    exact ⟨p, htask', hother htask'⟩
  | step d answer =>
    by_cases hd : d = c
    · subst hd
      obtain ⟨r, q, htask', hmove⟩ := move_of_step hact
      cases htask.symm.trans htask'
      obtain ⟨p', hafter, hfinding, hstale⟩ := hmove.isStale htask
      refine ⟨p', hafter, fun h => ?_, fun h => .inl ?_⟩
      · simp only [beginsRound, isFinding, htask, hafter, Option.any_some, Bool.and_eq_true,
          Bool.not_eq_true'] at h
        simp only [isStale, htask, hafter, Option.any_some]
        exact (hfinding h.1).resolve_left (by simp [h.2])
      · simp only [isStale, htask, hafter, Option.any_some] at h ⊢
        exact hstale h
    · have htask' := (task_of_step hact (Ne.symm hd)).trans htask
      exact ⟨p, htask', hother htask'⟩

/-! ## Rounds and removals of a run -/

/-- How many of the acts of a run are of a kind, by the states before and after them. -/
def tally (timeout : Nat) (kind : State → State → Bool) (st : State) : List Act → Nat
  | [] => 0
  | act :: acts =>
    match st.act? timeout act with
    | none => 0
    | some st' => (kind st st').toNat + st'.tally timeout kind acts

theorem tally_cons {kind : State → State → Bool} (hact : st.act? timeout act = some st') :
    st.tally timeout kind (act :: acts) =
      (kind st st').toNat + st'.tally timeout kind acts := by
  rw [tally, hact]

/-- Every round is paid for by a removal, but for one that gives up a slot that is stale already. -/
theorem tally_beginsRound_le (htask : st.tasks[c]? = some ⟨.acquire target use, p⟩) :
    st.tally timeout (beginsRound c) acts ≤
      (st.isStale c).toNat + st.tally timeout (removes c target) acts := by
  -- along the acts, a stale slot is a credit of one round
  induction acts generalizing st p with
  | nil => exact Nat.zero_le _
  | cons act acts ih =>
    cases hact : st.act? timeout act with
    | none =>
      rw [tally, hact]
      exact Nat.zero_le _
    | some st₁ =>
      obtain ⟨p', htask', hround, hstale⟩ := exists_phase_of_act htask hact
      have hrest := ih htask'
      rw [tally_cons hact, tally_cons hact]
      -- the new credit, with what the round costs, is the old one and what the removal earns
      have hpaid : (beginsRound c st st₁).toNat + (st₁.isStale c).toNat ≤
          (st.isStale c).toNat + (removes c target st st₁).toNat := by
        cases hbegins : beginsRound c st st₁ with
        | true =>
          obtain ⟨hbefore, hafter⟩ := hround hbegins
          rw [hbefore, hafter]
          exact Nat.le_add_right _ _
        | false =>
          cases hafter : st₁.isStale c with
          | false => exact Nat.zero_le _
          | true =>
            rcases hstale hafter with hbefore | hremoves
            · rw [hbefore]
              exact Nat.le_add_right _ _
            · rw [hremoves]
              exact Nat.le_add_left _ _
      omega

/-- A call of an acquisition begins the first round, and its slot is not stale. -/
theorem tally_acquire_le (timeout : Nat) (st : State) (target : String) (use : Use)
    (acts : List Act) :
    st.tally timeout (beginsRound st.tasks.length) (.call (.acquire target use) :: acts) ≤
      1 + st.tally timeout (removes st.tasks.length target)
        (.call (.acquire target use) :: acts) := by
  have hact : st.act? timeout (.call (.acquire target use)) =
      some (st.submit (.acquire target use)) := rfl
  have htask : (st.submit (.acquire target use)).tasks[st.tasks.length]? =
      some ⟨.acquire target use, .finding⟩ := by
    rw [submit_tasks, List.getElem?_concat_length]
    rfl
  have hrest : (st.submit (.acquire target use)).tally timeout (beginsRound st.tasks.length) acts ≤
      _ := tally_beginsRound_le htask
  have hstale : (st.submit (.acquire target use)).isStale st.tasks.length = false := by
    rw [isStale, htask]
    rfl
  rw [hstale, Bool.toNat_false, Nat.zero_add] at hrest
  rw [tally_cons hact, tally_cons hact]
  have hfirst := Bool.toNat_le (beginsRound st.tasks.length st (st.submit (.acquire target use)))
  omega

end State

end ShellQuery.Cache
