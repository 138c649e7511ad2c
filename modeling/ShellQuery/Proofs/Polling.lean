/-
  ShellQuery.Proofs.Polling

  How an executor moves its cache. However its tasks are polled, they take steps, and the clock goes
  on between them (`Course`). Whatever the store answers, the cache takes steps of these tasks then,
  with what the registry holds where a task asks it (`Moves`); the registry and the settings stay as
  they are (`Works`). What holds of steps so holds of the executor. In particular all dealings with
  the store in the course of a request for a target are of that request and for that target
  (`Serves`).
-/
import ShellQuery.Executor
import ShellQuery.Proofs.Cache.Attribution
import ShellQuery.Proofs.Cache.Origin
import ShellQuery.Proofs.Reader

namespace ShellQuery

open Cache

namespace Cache

/-! ## Steps of some tasks -/

/-- Whether a state comes from another one by steps of some tasks, while the registry stays as it
    is. -/
inductive Moves (registry : String → Option Target) (timeout : Nat) (tasks : List TaskId) :
    State → State → Prop where
  | refl (st : State) : Moves registry timeout tasks st st
  | step {st st' st'' : State} {c : TaskId} {answer : Answer}
    (h : Moves registry timeout tasks st st') (hc : c ∈ tasks)
    (hagrees : ∀ task, st'.tasks[c]? = some task → answer.Agrees registry task.request)
    (hstep : st'.step? timeout c answer = some st'') : Moves registry timeout tasks st st''

section
variable {registry : String → Option Target} {timeout : Nat} {tasks tasks' : List TaskId}
  {st st' st'' : State} {c : TaskId} {r : Request} {p p' : Phase} {answer : Answer}

theorem Moves.trans (h : Moves registry timeout tasks st st')
    (h' : Moves registry timeout tasks st' st'') : Moves registry timeout tasks st st'' := by
  induction h' with
  | refl => exact h
  | step _ hc hagrees hstep ih => exact .step ih hc hagrees hstep

theorem Moves.mono (h : Moves registry timeout tasks st st') (hsub : tasks ⊆ tasks') :
    Moves registry timeout tasks' st st' := by
  induction h with
  | refl => exact .refl _
  | step _ hc hagrees hstep ih => exact .step ih (hsub hc) hagrees hstep

theorem Moves.run (h : Moves registry timeout tasks st st') : Run st st' := by
  induction h with
  | refl => exact .refl _
  | step _ _ _ hstep ih => exact .step ih hstep

theorem Moves.reachableUnder (h : Moves registry timeout tasks st st')
    (hreach : ReachableUnder registry st) : ReachableUnder registry st' := by
  induction h with
  | refl => exact hreach
  | step _ _ hagrees hstep ih => exact .step ih hagrees hstep

/-- Steps give out numbers to the targets of their calls alone. -/
theorem Moves.fits {N : Attribution} (h : Moves registry timeout tasks st st') (hfits : N.Fits st)
    (hexact : N.Exact st) : ∃ N' : Attribution, N'.Extends N ∧ N'.Fits st' ∧ N'.Exact st' := by
  induction h with
  | refl => exact ⟨N, .refl N, hfits, hexact⟩
  | step _ _ _ hstep ih =>
    obtain ⟨N₁, hle₁, hfits₁, hexact₁⟩ := ih
    obtain ⟨N', hle, hfits', hexact'⟩ := hfits₁.step hexact₁ hstep
    exact ⟨N', hle.trans hle₁, hfits', hexact'⟩

/-! ## Dealings of some tasks -/

/-- A look at the table is no dealing with the store. -/
theorem Look.dealings (h : Look st c r p p' st') : dealings timeout r p p' = [] := by
  cases h with
  | @unmappedAll pending => cases pending <;> rfl
  | @listed pending => cases pending <;> rfl
  | _ => rfl

/-- A task that wants a lock has nothing to do with the store. -/
theorem dealings_self (h : p.wantsTable = true ∨ p.wants?.isSome = true) :
    dealings timeout r p p = [] := by
  cases p with
  | probing | discarding | connecting | storing | «using» | closing | sweepClosing =>
    exact absurd h (by simp [Phase.wantsTable, Phase.wants?])
  | _ => cases r <;> rfl

/-- A step has the dealings of its own task that its phases tell. -/
theorem State.exists_dealings_of_step (hstep : st.step? timeout c answer = some st') :
    ∃ r p p', st.tasks[c]? = some ⟨r, p⟩ ∧ st'.tasks[c]? = some ⟨r, p'⟩ ∧
      st'.events = st.events ++ (dealings timeout r p p').map (c, ·) := by
  obtain ⟨r, p, htask, hmove⟩ := move_of_step hstep
  cases hmove with
  | lockTable hwants =>
    exact ⟨r, p, p, htask, htask, by simp [dealings_self (.inl hwants)]⟩
  | lock hwants | queue hwants =>
    exact ⟨r, p, p, htask, htask, by simp [dealings_self (.inr (Option.isSome_of_eq_some hwants))]⟩
  | @look p' _ _ hlook =>
    refine ⟨r, p, p', htask, getElem?_self_of_enter htask hlook.tasks, ?_⟩
    rw [hlook.dealings]
    exact hlook.events.trans (List.append_nil _).symm
  | @turn p' _ hturn =>
    exact ⟨r, p, p', htask, getElem?_self_of_enter htask hturn.tasks, hturn.events⟩

/-- A connection is asked for to the target of the call. -/
theorem target?_of_connect_mem_dealings {name : String} {descriptor : Target} {limit : Nat}
    (h : .connect name descriptor limit ∈ dealings timeout r p p') : r.target? = some name := by
  rcases List.mem_append.1 h with h | h
  · unfold Phase.learned at h
    split at h <;> simp at h
  · unfold Request.begun at h
    split at h
    · obtain ⟨rfl, -, -⟩ : name = _ ∧ _ ∧ _ := by simpa using h
      rfl
    · simp at h
    · rename_i target use hd hmem
      cases use <;> simp [Use.events] at h
    all_goals simp at h

/-- Some tasks have dealings of their own, and ask for connections to the targets of their calls. -/
theorem Moves.exists_dealings (h : Moves registry timeout tasks st st') :
    ∃ dealings, st'.events = st.events ++ dealings ∧ ∀ c e, (c, e) ∈ dealings → c ∈ tasks ∧
      ∃ r p, st'.tasks[c]? = some ⟨r, p⟩ ∧
        ∀ name descriptor limit, e = .connect name descriptor limit → r.target? = some name := by
  induction h with
  | refl => exact ⟨[], (List.append_nil _).symm, fun _ _ hmem => absurd hmem List.not_mem_nil⟩
  | @step _ _ d answer _ hd _ hstep ih =>
    obtain ⟨dealings, hevents, hdealings⟩ := ih
    obtain ⟨r, p, p', -, htask, hes⟩ := State.exists_dealings_of_step hstep
    -- a task keeps its request for good, so what was said of earlier dealings can be said still
    have hlater : Run _ _ := .step (.refl _) hstep
    refine ⟨_, by rw [hes, hevents, List.append_assoc], fun c e hmem => ?_⟩
    rcases List.mem_append.1 hmem with hmem | hmem
    · obtain ⟨hc, r, p, htask, hconnect⟩ := hdealings c e hmem
      obtain ⟨p', htask'⟩ := hlater.exists_phase htask
      exact ⟨hc, r, p', htask', hconnect⟩
    · obtain ⟨e, he, heq⟩ := List.mem_map.1 hmem
      cases heq
      exact ⟨hd, r, p', htask, fun name descriptor limit heq =>
        target?_of_connect_mem_dealings (heq ▸ he)⟩

/-! ## Requests for a target -/

/-- Whether each number of a state belongs to a target, and each connection was asked for with what the
    registry holds: so it is in every state that calls on targets and their steps come to. -/
structure Sound (registry : String → Option Target) (st : State) : Prop where
  reachable : ReachableUnder registry st
  fits : ∃ N : Attribution, N.Fits st ∧ N.Exact st

theorem Sound.start : Sound registry {} :=
  ⟨.start, Attribution.exists_exact_start⟩

theorem Sound.submit {target : String} (h : Sound registry st) (hr : r.target? = some target) :
    Sound registry (st.submit r) := by
  obtain ⟨N, hfits, hexact⟩ := h.fits
  obtain ⟨N', -, hfits', hexact'⟩ := hfits.submit hexact hr
  exact ⟨h.reachable.submit r, N', hfits', hexact'⟩

theorem Sound.moves (h : Sound registry st) (hmoves : Moves registry timeout tasks st st') :
    Sound registry st' := by
  obtain ⟨N, hfits, hexact⟩ := h.fits
  obtain ⟨N', -, hfits', hexact'⟩ := hmoves.fits hfits hexact
  exact ⟨hmoves.reachableUnder h.reachable, N', hfits', hexact'⟩

/-- Whether a dealing with the store is for a target: a connection is asked for with what the registry
    holds for it, and any handle was opened for it. -/
structure State.DealsFor (st : State) (registry : String → Option Target) (target : String)
    (e : Event) : Prop where
  connect : ∀ name descriptor limit, e = .connect name descriptor limit →
    name = target ∧ registry target = some descriptor ∧ descriptor.active = true
  handle : ∀ h, e.handle? = some h → st.opened[h]? = some target

/-- Whether all that was dealt with the store between two states is of the newest task of the second
    one, and for a target. -/
def Serves (registry : String → Option Target) (target : String) (st st' : State) : Prop :=
  ∃ dealings, st'.events = st.events ++ dealings ∧
    ∀ c e, (c, e) ∈ dealings → c = st.tasks.length ∧ st'.DealsFor registry target e

theorem Serves.refl {target : String} : Serves registry target st st :=
  ⟨[], (List.append_nil _).symm, fun _ _ hmem => absurd hmem List.not_mem_nil⟩

/-- A handle that belongs to a target in a state was opened for it. -/
theorem Attribution.Fits.opened_of_handle {N : Attribution} {target : String} {h : HandleId}
    (hfits : N.Fits st) (hexact : N.Exact st) (hh : N.handle h = some target) :
    st.opened[h]? = some target := by
  have hlt : h < st.opened.length := Nat.lt_of_not_le fun hle => by
    cases (hexact.handle h hle).symm.trans hh
  have hopened : st.opened[h]? = some st.opened[h] := List.getElem?_eq_getElem hlt
  cases (hfits.opened hopened).symm.trans hh
  exact hopened

/-- The steps of a request for a target deal with that target alone. -/
theorem Moves.serves {target : String} (hsound : Sound registry st) (hr : r.target? = some target)
    (hmoves : Moves registry timeout [st.tasks.length] (st.submit r) st') :
    Serves registry target st st' := by
  have hsound' := (hsound.submit hr).moves hmoves
  obtain ⟨N, hfits, hexact⟩ := hsound'.fits
  have hsubmitted : (st.submit r).tasks[st.tasks.length]? = some ⟨r, r.begin⟩ := by simp
  obtain ⟨p, htask⟩ := hmoves.run.exists_phase hsubmitted
  obtain ⟨dealings, hevents, hdealings⟩ := hmoves.exists_dealings
  refine ⟨dealings, hevents, fun c e hmem => ?_⟩
  obtain ⟨hc, r', p', htask', hconnect⟩ := hdealings c e hmem
  -- only the new task takes steps, so its request is the one that each dealing is of
  obtain rfl := List.mem_singleton.1 hc
  cases htask.symm.trans htask'
  have hlogged : (st.tasks.length, e) ∈ st'.events := hevents ▸ List.mem_append_right _ hmem
  refine ⟨rfl, fun name descriptor limit he => ?_, fun h hh => ?_⟩
  · subst he
    cases hr.symm.trans (hconnect name descriptor limit rfl)
    exact ⟨rfl, hsound'.reachable.traced.asked hlogged⟩
  · obtain ⟨name, hname, hhandle⟩ := hfits.event hlogged
    cases (hfits.owns htask hr).1.symm.trans hname
    exact hfits.opened_of_handle hexact (hhandle h hh)

end

end Cache

/-! ## Steps of an executor -/

/-- Only a task that asks the registry goes on with its answer. -/
theorem Cache.State.phase_of_resolved {st st' : State} {timeout : Nat} {c : TaskId} {task : Task}
    {descriptor : Option Target} (htask : st.tasks[c]? = some task)
    (hstep : st.step? timeout c (.resolved descriptor) = some st') :
    ∃ s target use, task = ⟨.acquire target use, .resolving s⟩ := by
  obtain ⟨r, p⟩ := task
  simp only [step?, htask, Option.bind_eq_bind, Option.bind_some] at hstep
  cases r with
  | acquire target use =>
    cases p with
    | resolving s => exact ⟨s, target, use, rfl⟩
    | «using» => rcases use with _ | _ | _ <;> cases hstep
    | leaving s reply => rcases reply with _ | _ <;> cases hstep
    | _ => cases hstep
  | closeAll | count =>
    cases p with
    | sweeping pending | counting pending => rcases pending with _ | _ <;> cases hstep
    | _ => cases hstep
  | _ => cases p <;> cases hstep

namespace Executor

variable {σ : Type} (store : Store σ) {x y z : Executor σ} {c : TaskId} {tasks : List TaskId}
  {task : Task} {answer : Answer}

/-- Whether an executor differs from another one in its store, clock and timers at most. -/
structure Idles (x y : Executor σ) : Prop where
  registry : y.registry = x.registry
  config : y.config = x.config
  cache : y.cache = x.cache

/-- Whether an executor comes from another one by steps of some tasks. -/
structure Works (tasks : List TaskId) (x y : Executor σ) : Prop where
  registry : y.registry = x.registry
  config : y.config = x.config
  moves : Moves (x.registry.find? ·) x.config.connectTimeout tasks x.cache y.cache

theorem Works.refl (x : Executor σ) : Works tasks x x :=
  ⟨rfl, rfl, .refl _⟩

theorem Works.trans (h : Works tasks x y) (h' : Works tasks y z) : Works tasks x z where
  registry := h'.registry.trans h.registry
  config := h'.config.trans h.config
  moves := by
    have hmoves := h'.moves
    rw [h.registry, h.config] at hmoves
    exact h.moves.trans hmoves

theorem Works.mono {tasks' : List TaskId} (h : Works tasks x y) (hsub : tasks ⊆ tasks') :
    Works tasks' x y :=
  ⟨h.registry, h.config, h.moves.mono hsub⟩

/-- A step asks for what the task waits for, takes the task one phase on, and does what it has come
    to. -/
theorem step?_eq_some_iff : x.step? store c = some y ↔
    ∃ task asked answer cache task', x.cache.tasks[c]? = some task ∧
      x.answer? store c task = some (asked, answer) ∧
      x.cache.step? x.config.connectTimeout c answer = some cache ∧
      cache.tasks[c]? = some task' ∧ { asked with cache }.attend store c task' = y := by
  simp [step?, Option.bind_eq_some_iff]

variable {store} in
theorem Idles.of_answer? (h : x.answer? store c task = some (y, answer)) : Idles x y := by
  unfold Executor.answer? at h
  split at h
  case h_6 | h_7 =>
    obtain ⟨_, -, heq⟩ := Option.map_eq_some_iff.1 h
    cases heq
    exact ⟨rfl, rfl, rfl⟩
  all_goals cases h <;> exact ⟨rfl, rfl, rfl⟩

theorem Idles.attend (x : Executor σ) (c : TaskId) (task : Task) :
    Idles x (x.attend store c task) := by
  unfold Executor.attend
  split <;> exact ⟨rfl, rfl, rfl⟩

theorem works_step? (h : x.step? store c = some y) : Works [c] x y := by
  obtain ⟨task, asked, answer, cache, task', htask, hasked, hstep, -, rfl⟩ :=
    (step?_eq_some_iff store).1 h
  have hidles := Idles.of_answer? hasked
  have hattend := Idles.attend store { asked with cache } c task'
  refine ⟨hattend.registry.trans hidles.registry, hattend.config.trans hidles.config, ?_⟩
  rw [hattend.cache]
  refine .step (.refl _) (.head _) (fun task₁ htask₁ => ?_) hstep
  cases htask.symm.trans htask₁
  -- an answer of the registry is for a task that asks it, and of its target
  rintro target use descriptor hrequest rfl
  obtain ⟨s, _, _, rfl⟩ := State.phase_of_resolved htask hstep
  cases hrequest
  cases hasked
  rfl

/-! ## Polling -/

/-- Whether an executor comes from another one by steps of some tasks, while the clock goes on. -/
inductive Course (tasks : List TaskId) (x : Executor σ) : Executor σ → Prop where
  | refl : Course tasks x x
  | step {y z : Executor σ} {c : TaskId} (h : Course tasks x y) (hc : c ∈ tasks)
    (hstep : y.step? store c = some z) : Course tasks x z
  | wait {y : Executor σ} (h : Course tasks x y) (clock : Nat) :
    Course tasks x { y with clock }

variable {store}

theorem Course.trans (h : Course store tasks x y) (h' : Course store tasks y z) :
    Course store tasks x z := by
  induction h' with
  | refl => exact h
  | step _ hc hstep ih => exact .step ih hc hstep
  | wait _ clock ih => exact .wait ih clock

theorem Course.mono {tasks' : List TaskId} (h : Course store tasks x y) (hsub : tasks ⊆ tasks') :
    Course store tasks' x y := by
  induction h with
  | refl => exact .refl
  | step _ hc hstep ih => exact .step ih (hsub hc) hstep
  | wait _ clock ih => exact .wait ih clock

theorem Course.works (h : Course store tasks x y) : Works tasks x y := by
  induction h with
  | refl => exact .refl x
  | step _ hc hstep ih => exact ih.trans ((works_step? store hstep).mono (by simpa using hc))
  | wait _ clock ih => exact ⟨ih.registry, ih.config, ih.moves⟩

variable (store)

theorem course_poll (c : TaskId) (fuel : Nat) (x : Executor σ) :
    Course store [c] x (poll store c fuel x).1 := by
  induction fuel generalizing x with
  | zero => exact .refl
  | succ fuel ih =>
    unfold poll
    split
    · exact .refl
    · rename_i y hy
      exact (Course.step .refl (.head _) hy).trans (ih y)

theorem course_round (tasks : List TaskId) (x : Executor σ) :
    Course store tasks x (round store tasks x).1 := by
  -- whether any task has moved is carried along, and decides nothing here
  refine List.foldlRecOn (motive := fun y : Executor σ × Bool => Course store tasks x y.1)
    tasks _ .refl ?_
  intro y hcourse c hc
  exact hcourse.trans ((course_poll store c y.1.pollFuel y.1).mono (by simpa using hc))

theorem course_runTasks (tasks : List TaskId) (fuel : Nat) (x : Executor σ) :
    Course store tasks x (runTasks store tasks fuel x) := by
  induction fuel generalizing x with
  | zero => exact .refl
  | succ fuel ih =>
    have hround := course_round store tasks x
    unfold runTasks
    split
    · rename_i y hy
      rw [hy] at hround
      exact hround.trans (ih y)
    · rename_i y hy
      rw [hy] at hround
      split
      · exact hround
      -- no task can go on, so the clock does
      · exact (hround.wait _).trans (ih _)

/-- Requests that are performed together are submitted, and the rest is steps of their tasks. -/
theorem course_performAll (x : Executor σ) (requests : List Request) :
    Course store ((List.range requests.length).map (x.cache.tasks.length + ·))
      { x with cache := requests.foldl State.submit x.cache } (x.performAll store requests).1 :=
  course_runTasks store _ _ { x with cache := _ }

/-! ## Calls on a target -/

/-- Whether an executor comes from another one by a call on a target. -/
structure Serves (target : String) (x y : Executor σ) : Prop where
  registry : y.registry = x.registry
  config : y.config = x.config
  dealings : Cache.Serves (x.registry.find? ·) target x.cache y.cache
  sound : Sound (y.registry.find? ·) y.cache

theorem perform_fst (x : Executor σ) (r : Request) :
    (x.perform store r).1 = (x.performAll store [r]).1 := by
  unfold perform
  split <;> rename_i h <;> rw [h]

theorem serves_perform (hsound : Sound (x.registry.find? ·) x.cache) {r : Request} {target : String}
    (hr : r.target? = some target) : Serves target x (x.perform store r).1 := by
  have hworks := (course_performAll store x [r]).works
  rw [perform_fst]
  have hmoves : Moves (x.registry.find? ·) x.config.connectTimeout [x.cache.tasks.length]
      (x.cache.submit r) (x.performAll store [r]).1.cache := hworks.moves
  refine ⟨hworks.registry, hworks.config, hmoves.serves hsound hr, ?_⟩
  rw [hworks.registry]
  exact (hsound.submit hr).moves hmoves

/-- A query deals with its target alone, and with nothing if its text is none. -/
theorem serves_execute (hsound : Sound (x.registry.find? ·) x.cache) (now : Int64) (e : Execution) :
    Serves e.target x (x.execute store now e).1 := by
  unfold execute
  cases hrequest : request x.config now e with
  | error err => exact ⟨rfl, rfl, .refl, hsound⟩
  | ok r =>
    obtain ⟨plan, -, hr⟩ := bind_eq_ok.1 hrequest
    cases hr
    exact serves_perform store hsound rfl

theorem serves_probe (hsound : Sound (x.registry.find? ·) x.cache) (target : String) :
    Serves target x (x.probe store target).1 := by
  have hserves := serves_perform store hsound (r := .acquire target (.list x.config.deadline)) rfl
  unfold probe
  split <;> rename_i h <;> rw [h] at hserves <;> exact hserves

theorem serves_close (hsound : Sound (x.registry.find? ·) x.cache) (target : String) :
    Serves target x (x.close store target).1 := by
  have hserves := serves_perform store hsound (r := .close target) rfl
  unfold close
  split <;> rename_i h <;> rw [h] at hserves <;> exact hserves

end Executor

end ShellQuery
