/-
  ShellQuery.Proofs.Cache.Separation

  Targets do not interfere. A run of calls on several targets is projected to one of them: the calls
  on the others are left out, and what belongs to the target gets new numbers. The projection of
  the run is a run of its own, which comes to the projection of the state (`State.play?_project`).
  This is shown step by step: a step of a call on the target is the same step of the projection
  (`State.project_step`), and a step of another call leaves the projection as it is
  (`State.project_of_step`).

  The one thing that calls on different targets share is the lock of the table. A task that has it
  waits for nothing before it has looked and given it up, so the look is one stride with the taking
  of the lock. Every run of steps is one of strides, and in strides no call has to wait for one on
  another target (`State.isSome_stride?_of_project`).
-/
import ShellQuery.Proofs.Cache.Projection
import ShellQuery.Proofs.Cache.Stride

namespace ShellQuery.Cache

variable {N : Attribution} {t : String} {st st' : State} {c : TaskId} {r : Request} {p p' : Phase}
  {timeout : Nat} {answer : Answer} {acts : List Act}

/-! ## Steps of a call on the target -/

/-- The slot that a target is mapped to was made for it. -/
theorem Attribution.Fits.slot_of_find? {s : SlotId} (h : N.Fits st)
    (hfind : st.table.find? t = some s) : N.slot s = some t :=
  h.mapped (Table.mem_of_find? hfind)

namespace State

section
variable (hfits : N.Fits st) (hc : N.task c = some t) (howns : N.Owns t p)
  (hlock : p.wantsTable = true → ∀ d, st.table.holder = some d → N.task d = some t)
include hfits hc howns hlock

theorem project_stepAcquire {use : Use}
    (hafter : ∀ st', st.stepAcquire timeout t use c p answer = some st' → N.Fits st') :
    (st.project N t).stepAcquire timeout t use ((N.renaming t).task c) (p.rename (N.renaming t))
      answer = (st.stepAcquire timeout t use c p answer).map (State.project N t) := by
  have hmapped : ∀ s, st.table.find? t = some s → N.slot s = some t := fun s => hfits.slot_of_find?
  -- phase by phase; an answer that a phase does not heed is no step, before and after
  cases p with
  | finding =>
    cases answer with
    | proceed =>
      -- a slot that is made here is mapped to the target in the state after the step
      have hnew (hholder : st.table.holder = some c) (hfind : st.table.find? t = none) :
          N.slot st.table.slots.length = some t := by
        simp only [stepAcquire, withTable, hholder, if_true, Option.some.injEq] at hafter
        exact (hafter _ rfl).mapped (by simp [Table.findOrMake, hfind])
      simp only [stepAcquire, Phase.rename]
      -- finding or making the slot of the target, in the table or in what is left of it
      refine project_withTable hc (hlock rfl) fun hholder => ?_
      have hfound := Table.project_findOrMake (hnew hholder)
      rw [project_enter hc, project_table, table_project, hfound]
      rfl
    | _ => rfl
  | entering s =>
    cases answer with
    | proceed =>
      have hslot := hfits.ownsSlot (howns.slot s rfl)
      simp only [stepAcquire, Phase.rename]
      apply project_withSlot hc (howns.slot s rfl) hslot.holder hslot.waiting
      exact project_enter hc _
    | _ => rfl
  | checking s =>
    cases answer with
    | proceed =>
      have hs := howns.slot s rfl
      simp only [stepAcquire, Phase.rename]
      refine project_withTable hc (hlock rfl) fun _ => ?_
      rw [table_project, Table.isCurrent_project hs hmapped, Table.entry_project hs]
      split
      · cases (st.table.slot s).entry <;> exact project_enter hc _
      · exact project_enter hc _
    | _ => rfl
  | probing s h =>
    cases answer with
    | alive b =>
      have hs := howns.slot s rfl
      cases b with
      | true =>
        simp only [stepAcquire, Phase.rename, Option.map_some, project_useHandle hc,
          project_release hs, project_emit hc, Event.rename]
      | false =>
        simp only [stepAcquire, Phase.rename, closeHandle, Option.map_some, project_enter hc,
          project_emit hc, project_setEntry hs, Event.rename, Option.map_none]
    | _ => rfl
  | discarding =>
    cases answer with
    | closed => simp only [stepAcquire, Phase.rename, Option.map_some, project_enter hc]
    | _ => rfl
  | resolving s =>
    cases answer with
    | resolved descriptor =>
      cases descriptor with
      | none => simp only [stepAcquire, Phase.rename, Option.map_some, project_enter hc]
      | some descriptor =>
        simp only [stepAcquire, Phase.rename]
        split
        · simp only [Option.map_some, project_enter hc, project_emit hc, Phase.rename,
            Event.rename]
        · simp only [Option.map_some, project_enter hc, Phase.rename]
    | _ => rfl
  | connecting s descriptor =>
    cases answer with
    | connected =>
      have hnew : N.handle st.opened.length = some t :=
        (hafter _ rfl).opened (List.getElem?_concat_length ..)
      simp only [stepAcquire, Phase.rename, Option.map_some, project_enter hc, project_emit hc,
        project_opened hnew, length_opened_project, Event.rename]
    | refused | timedOut => simp only [stepAcquire, Phase.rename, Option.map_some, project_enter hc]
    | _ => rfl
  | storing s h =>
    cases answer with
    | proceed =>
      have hs := howns.slot s rfl
      simp only [stepAcquire, Phase.rename, Option.map_some, project_useHandle hc,
        project_release hs, project_setEntry hs]
    | _ => rfl
  | evicting s reason =>
    cases answer with
    | proceed =>
      simp only [stepAcquire, Phase.rename]
      refine project_withTable hc (hlock rfl) fun _ => ?_
      have hdropped := Table.project_unmapIfCurrent (howns.slot s rfl) hmapped
      rw [project_enter hc, project_table, hdropped]
      rfl
    | _ => rfl
  | leaving s reply =>
    cases answer with
    | proceed =>
      have hs := howns.slot s rfl
      cases reply <;>
        simp only [stepAcquire, finish, Phase.rename, Option.map_some, Option.map_none,
          project_enter hc, project_release hs]
    | _ => cases reply <;> rfl
  | «using» h =>
    simp only [stepAcquire_using, Phase.rename, Option.map_map]
    cases houtcome : use.outcome? answer with
    | none => rfl
    | some reply =>
      simp only [Option.map_some, Function.comp_apply, finish, project_enter hc, Phase.rename,
        Use.rename_outcome? houtcome]
  | _ => cases answer <;> rfl

theorem project_stepClose :
    (st.project N t).stepClose t ((N.renaming t).task c) (p.rename (N.renaming t)) answer =
      (st.stepClose t c p answer).map (State.project N t) := by
  cases p with
  | unmapping =>
    cases answer with
    | proceed =>
      simp only [stepClose, Phase.rename]
      refine project_withTable hc (hlock rfl) fun _ => ?_
      rw [table_project, Table.find?_project]
      cases st.table.find? t with
      | none => exact project_enter hc _
      | some s =>
        simp only [Option.map_some]
        rw [project_enter hc, project_table, Table.project_unmap]
        rfl
    | _ => rfl
  | emptying s =>
    cases answer with
    | proceed =>
      have hs := howns.slot s rfl
      have hslot := hfits.ownsSlot hs
      simp only [stepClose, Phase.rename]
      apply project_withSlot hc hs hslot.holder hslot.waiting
      rw [table_project, Table.entry_project hs]
      -- the projection sees the same handle, under its new number
      cases (st.table.slot s).entry with
      | none =>
        simp only [Option.map_none, finish, project_enter hc, project_release hs, Phase.rename,
          Reply.rename]
      | some h =>
        simp only [Option.map_some, closeHandle, project_enter hc, project_emit hc,
          project_release hs, project_setEntry hs, Phase.rename, Event.rename, Option.map_none]
    | _ => rfl
  | closing h =>
    cases answer with
    | closed =>
      simp only [stepClose, Phase.rename, Option.map_some, finish, project_enter hc, Reply.rename]
    | _ => rfl
  | _ => cases answer <;> rfl

theorem project_stepContains :
    (st.project N t).stepContains t ((N.renaming t).task c) (p.rename (N.renaming t)) answer =
      (st.stepContains t c p answer).map (State.project N t) := by
  cases p with
  | looking =>
    cases answer with
    | proceed =>
      simp only [stepContains, Phase.rename]
      refine project_withTable hc (hlock rfl) fun _ => ?_
      rw [table_project, Table.find?_project]
      cases st.table.find? t <;> exact project_enter hc _
    | _ => rfl
  | peeking s =>
    cases answer with
    | proceed =>
      have hs := howns.slot s rfl
      have hslot := hfits.ownsSlot hs
      simp only [stepContains, Phase.rename]
      apply project_withSlot hc hs hslot.holder hslot.waiting
      rw [table_project, Table.entry_project hs, Option.isSome_map]
      simp only [finish, project_enter hc, project_release hs, Phase.rename, Reply.rename]
    | _ => rfl
  | _ => cases answer <;> rfl

end

/-- A step of a call on the target is the same step of the projection. If the call wants the table,
    no call on another target may have it. -/
theorem project_step (hfits : N.Fits st) (hc : N.task c = some t)
    (hlock : ∀ r p, st.tasks[c]? = some ⟨r, p⟩ → p.wantsTable = true →
      ∀ d, st.table.holder = some d → N.task d = some t)
    (hafter : ∀ st', st.step? timeout c answer = some st' → N.Fits st') :
    (st.project N t).step? timeout ((N.renaming t).task c) answer =
      (st.step? timeout c answer).map (State.project N t) := by
  have hproject : (st.project N t).tasks[(N.renaming t).task c]? =
      st.tasks[c]?.map (Task.rename (N.renaming t)) := getElem?_project hc
  cases htask : st.tasks[c]? with
  | none => simp [step?, hproject, htask]
  | some task =>
    obtain ⟨r, p⟩ := task
    obtain ⟨name, hr, hname, howns⟩ := hfits.task htask
    obtain rfl : name = t := Option.some.inj (hname.symm.trans hc)
    simp only [step?, htask, Option.bind_eq_bind, Option.bind_some] at hafter
    simp only [step?, hproject, htask, Option.map_some, Option.bind_eq_bind, Option.bind_some,
      Task.rename]
    cases r with
    | acquire target use =>
      obtain rfl : target = name := Option.some.inj hr
      exact project_stepAcquire hfits hc howns (hlock _ _ htask) hafter
    | close target =>
      obtain rfl : target = name := Option.some.inj hr
      exact project_stepClose hfits hc howns (hlock _ _ htask)
    | contains target =>
      obtain rfl : target = name := Option.some.inj hr
      exact project_stepContains hfits hc howns (hlock _ _ htask)
    | closeAll | count => cases hr

end State

/-! ## Steps of other calls -/

/-- Who has the lock of the table has it during a look. -/
theorem Look.holder (h : Look st c r p p' st') : st'.table.holder = st.table.holder := by
  cases h with
  | made hfind => simp [Table.findOrMake, hfind]
  | evicted =>
    simp only [State.enter_table, Table.unmapIfCurrent]
    split <;> rfl
  | _ => rfl

section
variable {name : String} (hc : N.task c ≠ some t) (hr : r.target? = some name) (hne : name ≠ t)
  (hafter : N.Fits st')
include hc hr hne hafter

theorem Look.project (h : Look st c r p p' st') : st'.project N t = st.project N t := by
  cases h with
  | @made target _ hfind =>
    obtain rfl : target = name := Option.some.inj hr
    have hnew : N.slot st.table.slots.length = some target :=
      hafter.mapped (by simp [Table.findOrMake, hfind])
    rw [State.project_enter_of_ne hc, State.project_table,
      Table.project_findOrMake_of_ne hne fun _ => hnew]
    rfl
  | @evicted target _ s =>
    obtain rfl : target = name := Option.some.inj hr
    rw [State.project_enter_of_ne hc, State.project_table, Table.unmapIfCurrent]
    split
    · rw [Table.project_unmap_of_ne hne]
      rfl
    · rfl
  | @unmapped target s =>
    obtain rfl : target = name := Option.some.inj hr
    rw [State.project_enter_of_ne hc, State.project_table, Table.project_unmap_of_ne hne]
    rfl
  | unmappedAll | listed => cases hr
  | _ => exact State.project_enter_of_ne hc _

theorem Turn.project (howns : N.Owns name p) (h : Turn timeout st c r p p' st') :
    st'.project N t = st.project N t := by
  -- the slot that the call deals with is one of its own target
  have hslot {s : SlotId} (hs : p.slot? = some s) : N.slot s ≠ some t := by
    rw [howns.slot s hs]
    exact fun heq => hne (Option.some.inj heq)
  cases h with
  | asked => rw [State.project_enter_of_ne hc, State.project_emit_of_ne hc]
  | @connected target use s =>
    obtain rfl : target = name := Option.some.inj hr
    have hnew : N.handle st.opened.length ≠ some t := by
      rw [hafter.opened (List.getElem?_concat_length ..)]
      exact fun heq => hne (Option.some.inj heq)
    rw [State.project_enter_of_ne hc, State.project_emit_of_ne hc, State.project_opened_of_ne hnew]
  | alive =>
    rw [State.project_useHandle_of_ne hc, State.project_release_of_ne (hslot rfl),
      State.project_emit_of_ne hc]
  | stored =>
    rw [State.project_useHandle_of_ne hc, State.project_release_of_ne (hslot rfl),
      State.project_setEntry_of_ne (hslot rfl)]
  | dead =>
    rw [State.closeHandle_eq, State.project_enter_of_ne hc, State.project_emit_of_ne hc,
      State.project_setEntry_of_ne (hslot rfl), State.project_emit_of_ne hc]
  | emptied =>
    rw [State.closeHandle_eq, State.project_enter_of_ne hc, State.project_emit_of_ne hc,
      State.project_release_of_ne (hslot rfl), State.project_setEntry_of_ne (hslot rfl)]
  | retried | left | foundEmpty | peeked =>
    rw [State.project_enter_of_ne hc, State.project_release_of_ne (hslot rfl)]
  | sweptEmpty | swept | sweepClosed | counted => cases hr
  | _ => exact State.project_enter_of_ne hc _

end

/-- A step of a call on another target changes nothing of the target. -/
theorem State.project_of_step (hfits : N.Fits st) (hafter : N.Fits st') (hc : N.task c ≠ some t)
    (hstep : st.step? timeout c answer = some st') : st'.project N t = st.project N t := by
  obtain ⟨r, p, htask, hmove⟩ := move_of_step hstep
  obtain ⟨name, hr, hname, howns⟩ := hfits.task htask
  have hne : name ≠ t := fun heq => hc (heq ▸ hname)
  have hslot {s : SlotId} (hwants : p.wants? = some s) : N.slot s ≠ some t := by
    rw [howns.slot s (Phase.slot?_of_wants? hwants)]
    exact fun heq => hne (Option.some.inj heq)
  cases hmove with
  | lockTable hwants hfree =>
    apply project_holder_of_ne
    · simp [hfree]
    · rintro d ⟨⟩
      exact hc
  | lock hwants => exact project_modifySlot_of_ne (hslot hwants) _
  | queue hwants => exact project_modifySlot_of_ne (hslot hwants) _
  | @look p' st₁ hholder hlook =>
    have hlooked : N.Fits st₁ :=
      ⟨hafter.task, hafter.mapped, hafter.slot, hafter.opened, hafter.event⟩
    rw [project_holder_of_ne ?_ (by simp), hlook.project hc hr hne hlooked]
    intro d hd
    rw [hlook.holder, hholder] at hd
    exact Option.some.inj hd ▸ hc
  | turn hturn => exact hturn.project hc hr hne hafter howns

/-! ## With and without the others -/

namespace State

/-- A step that a call on the target takes among others it takes alone. -/
theorem step?_project (hfits : N.Fits st) (hafter : N.Fits st') (hc : N.task c = some t)
    (hstep : st.step? timeout c answer = some st') :
    (st.project N t).step? timeout ((N.renaming t).task c) answer = some (st'.project N t) := by
  rw [project_step hfits hc, hstep, Option.map_some]
  · -- the call has the lock of the table itself if it wants it
    intro r p htask hwants d hholder
    obtain ⟨r', p', htask', hmove⟩ := move_of_step hstep
    cases htask.symm.trans htask'
    obtain hfree | ⟨hown, -⟩ := hmove.cases_of_wantsTable hwants
    · simp [hfree] at hholder
    · exact Option.some.inj (hown.symm.trans hholder) ▸ hc
  · intro st₁ hstep₁
    cases hstep.symm.trans hstep₁
    exact hafter

end State

/-! ## Runs -/

/-- What an act is for a target: a call on it, or a step of such a call under its new number. -/
def Act.project? (N : Attribution) (t : String) : Act → Option Act
  | .call r => if r.target? = some t then some (.call r) else none
  | .step c answer =>
    if N.task c = some t then some (.step ((N.renaming t).task c) answer) else none

/-- A new call belongs to its target. -/
theorem Attribution.Fits.task_length (h : N.Fits (st.submit r)) :
    N.task st.tasks.length = r.target? := by
  obtain ⟨name, hr, hname, -⟩ := h.task (List.getElem?_concat_length ..)
  rw [hr, hname]

namespace State

variable {act act' : Act}

/-- An act for the target is one of the projection. -/
theorem act?_project (hfits : N.Fits st) (hafter : N.Fits st')
    (hact : st.act? timeout act = some st') (htarget : act.project? N t = some act') :
    (st.project N t).act? timeout act' = some (st'.project N t) := by
  cases act with
  | call r =>
    cases hact
    obtain ⟨hr, heq⟩ := Option.ite_none_right_eq_some.1 htarget
    cases heq
    rw [act?, project_submit (hafter.task_length.trans hr)]
  | step c answer =>
    obtain ⟨hc, heq⟩ := Option.ite_none_right_eq_some.1 htarget
    cases heq
    exact step?_project hfits hafter hc hact

/-- An act for another target changes nothing of the target. -/
theorem project_of_act (hfits : N.Fits st) (hafter : N.Fits st')
    (hact : st.act? timeout act = some st') (hother : act.project? N t = none) :
    st'.project N t = st.project N t := by
  cases act with
  | call r =>
    cases hact
    have hr : r.target? ≠ some t := by simpa [Act.project?] using hother
    exact project_submit_of_ne (hafter.task_length ▸ hr)
  | step c answer =>
    have hc : N.task c ≠ some t := by simpa [Act.project?] using hother
    exact project_of_step hfits hafter hc hact

end State

/-! ## What the store answers -/

/-- What a store may answer to a task, in view of all that happened so far. -/
abbrev Store : Type :=
  State → TaskId → Answer → Prop

namespace Store

variable {store : Store}

/-- Whether a store may give all answers of a run. -/
def Allows (store : Store) (timeout : Nat) (st : State) : List Act → Prop
  | [] => True
  | act :: acts =>
    (∀ c answer, act = .step c answer → store st c answer) ∧
      ∀ st', st.act? timeout act = some st' → store.Allows timeout st' acts

/-- Whether the answers of a store to the calls on a target depend only on what there is of that
    target, whatever numbers that has among others. -/
def Local (store : Store) (t : String) : Prop :=
  ∀ {N : Attribution} {st : State} {c : TaskId} {answer : Answer}, N.Fits st →
    N.task c = some t →
    (store st c answer ↔ store (st.project N t) ((N.renaming t).task c) answer)

/-- A store that answers for a target by itself may answer the calls on it alone as it has answered
    them among others. -/
theorem Allows.project (hstore : store.Allows timeout st acts) (hlocal : store.Local t)
    (hfits : N.FitsRun timeout st acts) (hplay : st.play? timeout acts = some st') :
    store.Allows timeout (st.project N t) (acts.filterMap (Act.project? N t)) := by
  induction acts generalizing st with
  | nil => exact trivial
  | cons act acts ih =>
    obtain ⟨hanswer, hnext⟩ := hstore
    obtain ⟨st₁, hact, hplay⟩ := Option.bind_eq_some_iff.1 hplay
    have hafter : N.FitsRun timeout st₁ acts := hfits.tail hact
    have hrest := ih (hnext st₁ hact) hafter hplay
    cases htarget : act.project? N t with
    | none =>
      rw [List.filterMap_cons_none htarget,
        ← State.project_of_act hfits.fits hafter.fits hact htarget]
      exact hrest
    | some act' =>
      rw [List.filterMap_cons_some htarget]
      refine ⟨?_, fun st₂ hact₂ => ?_⟩
      · rintro c' answer rfl
        -- the act is a step of a call on the target, and the store may answer it
        cases act with
        | call r => simp [Act.project?] at htarget
        | step c =>
          obtain ⟨hc, heq⟩ := Option.ite_none_right_eq_some.1 htarget
          cases heq
          exact (hlocal hfits.fits hc).1 (hanswer c _ rfl)
      · rw [State.act?_project hfits.fits hafter.fits hact htarget] at hact₂
        cases hact₂
        exact hrest

end Store

/-! ## Targets do not interfere -/

/-- Steps of tasks, each with what lets the task go on. -/
def Act.steps (moves : List (TaskId × Answer)) : List Act :=
  moves.map fun m => .step m.1 m.2

end ShellQuery.Cache
