/-
  ShellQuery.Proofs.Cache.Origin

  Where the handle comes from that an acquisition returns. The log of the dealings with the store
  tells: the task that opened the handle had asked for a connection before, with the descriptor that
  the registry holds, and nothing else in between (`OpenedWith`); the task that returns it has
  opened it or has just probed it. What a task has had to do with the store can be read off its
  phase (`Traced`), in every state that comes about while the registry stays as it is.
-/
import ShellQuery.Proofs.Cache.Once
import ShellQuery.Proofs.Cache.Place

namespace ShellQuery.Cache

/-! ## Registries -/

/-- Whether an answer to a request is what the registry holds for its target, where it is asked. -/
def Answer.Agrees (registry : String → Option Target) (r : Request) (answer : Answer) : Prop :=
  ∀ target use descriptor, r = .acquire target use → answer = .resolved descriptor →
    descriptor = registry target

/-- Whether a state comes about in some order of calls and steps, while the registry stays as it
    is. -/
inductive ReachableUnder (registry : String → Option Target) : State → Prop where
  | start : ReachableUnder registry {}
  | submit {st : State} (h : ReachableUnder registry st) (r : Request) :
    ReachableUnder registry (st.submit r)
  | step {st st' : State} {timeout : Nat} {c : TaskId} {answer : Answer}
    (h : ReachableUnder registry st)
    (hagrees : ∀ task, st.tasks[c]? = some task → answer.Agrees registry task.request)
    (hstep : st.step? timeout c answer = some st') : ReachableUnder registry st'

theorem ReachableUnder.reachable {registry : String → Option Target} {st : State}
    (h : ReachableUnder registry st) : Reachable st := by
  induction h with
  | start => exact .refl _
  | submit _ r ih => exact .submit ih r
  | step _ _ hstep ih => exact .step ih hstep

/-- A step changes what no task was asked for. -/
theorem State.requests_of_step {timeout : Nat} {st st' : State} {c : TaskId} {answer : Answer}
    (hstep : st.step? timeout c answer = some st') :
    st'.tasks.map Task.request = st.tasks.map Task.request := by
  obtain ⟨r, p, htask, hmove⟩ := move_of_step hstep
  have henter {p' : Phase} {tasks : List Task}
      (htasks : tasks = st.tasks.modify c fun t => { t with phase := p' }) :
      tasks.map Task.request = st.tasks.map Task.request := by
    refine List.ext_getElem? fun d => ?_
    rw [List.getElem?_map, List.getElem?_map, getElem?_of_enter htask htasks]
    split
    · rename_i hd
      simp [hd, htask]
    · rfl
  cases hmove with
  | lockTable | lock | queue => rfl
  | look _ hlook => exact henter hlook.tasks
  | turn hturn => exact henter hturn.tasks

theorem ReachableUnder.of_steps {registry : String → Option Target} {timeout : Nat}
    {st st' : State} {moves : List (TaskId × Answer)} (h : ReachableUnder registry st)
    (hagrees : ∀ move ∈ moves, ∀ r ∈ st.tasks.map Task.request, move.2.Agrees registry r)
    (hsteps : st.steps? timeout moves = some st') : ReachableUnder registry st' := by
  induction moves generalizing st with
  | nil =>
    cases hsteps
    exact h
  | cons move moves ih =>
    obtain ⟨c, answer⟩ := move
    obtain ⟨st₁, hstep, hrest⟩ := Option.bind_eq_some_iff.1 hsteps
    have hnext : ReachableUnder registry st₁ := by
      refine .step h (fun task htask => ?_) hstep
      exact hagrees _ (.head _) _ (List.mem_map_of_mem (List.mem_of_getElem? htask))
    refine ih hnext (fun move hmove r hr => ?_) hrest
    rw [State.requests_of_step hstep] at hr
    exact hagrees move (.tail _ hmove) r hr

/-- What every request begins with and every look and turn keeps, whatever the state, holds of every
    task. -/
theorem Reachable.of_phases {I : Request → Phase → Prop} (hbegin : ∀ r, I r r.begin)
    (hlook : ∀ {st st' c r p p'}, Look st c r p p' st' → I r p → I r p')
    (hturn : ∀ {timeout st st' c r p p'}, Turn timeout st c r p p' st' → I r p → I r p')
    {st : State} (h : Reachable st) {c : TaskId} {r : Request} {p : Phase}
    (htask : st.tasks[c]? = some ⟨r, p⟩) : I r p := by
  -- said of all tasks, since the induction is on the run and a step may be any task's
  have hall : ∀ task ∈ st.tasks, I task.request task.phase := by
    clear htask
    induction h with
    | refl => simp
    | submit _ r ih =>
      intro task hmem
      rcases List.mem_append.1 hmem with hmem | hmem
      · exact ih task hmem
      · obtain rfl := List.mem_singleton.1 hmem
        exact hbegin r
    | @step st' st'' timeout c answer _ hstep ih =>
      obtain ⟨r, p, htask, hmove⟩ := move_of_step hstep
      have hold : I r p := ih _ (List.mem_of_getElem? htask)
      -- one task goes on to a phase that the invariant holds of; the others stay
      have henter {p' : Phase} {tasks : List Task}
          (htasks : tasks = st'.tasks.modify c fun t => { t with phase := p' }) (hnew : I r p') :
          ∀ task ∈ tasks, I task.request task.phase := by
        intro task hmem
        obtain ⟨d, hd⟩ := List.getElem?_of_mem hmem
        rw [getElem?_of_enter htask htasks] at hd
        split at hd
        · cases hd
          exact hnew
        · exact ih task (List.mem_of_getElem? hd)
      cases hmove with
      | lockTable | lock | queue => exact ih
      | look _ hl => exact henter hl.tasks (hlook hl hold)
      | turn ht => exact henter ht.tasks (hturn ht hold)
  exact hall _ (List.mem_of_getElem? htask)

section
variable {registry : String → Option Target} {timeout : Nat} {st st' : State} {c d : TaskId}
  {r : Request} {p p' : Phase} {answer : Answer} {target : String} {use : Use} {h : HandleId}

/-- A connection is asked for with the descriptor that the registry has answered. -/
theorem State.answer_of_asked {s s' : SlotId} {descriptor : Target}
    (htask : st.tasks[c]? = some ⟨.acquire target use, .resolving s⟩)
    (hstep : st.step? timeout c answer = some st')
    (hasked : st'.tasks[c]? = some ⟨r, .connecting s' descriptor⟩) :
    answer = .resolved (some descriptor) := by
  simp only [step?, htask, Option.bind_eq_bind, Option.bind_some] at hstep
  rcases answer with _ | _ | _ | (_ | found) | _ | _ | _ | _ | _ <;>
    simp only [stepAcquire, reduceCtorEq] at hstep
  · cases hstep
    simp [htask] at hasked
  · split at hstep <;> cases hstep <;> simp [htask] at hasked
    rw [hasked.2.2]

/-! ## What the log tells of a task -/

/-- Whether the given dealing with the store is the last one that a task has had. -/
def State.LastDealing (st : State) (c : TaskId) (e : Event) : Prop :=
  ∃ before after, st.events = before ++ (c, e) :: after ∧ ∀ dealing ∈ after, dealing.1 ≠ c

/-- Whether a handle was opened for a target with the given descriptor: by a task whose last dealing
    with the store was to ask for that connection. -/
def State.OpenedWith (st : State) (h : HandleId) (target : String) (descriptor : Target) : Prop :=
  ∃ d timeout before between after,
    st.events = before ++ (d, .connect target descriptor timeout) ::
      (between ++ (d, .opened h) :: after) ∧ ∀ dealing ∈ between, dealing.1 ≠ d

/-- What a task has had to do with the store by the time it is in a phase, and what the registry
    holds for its target. -/
def State.Trace (registry : String → Option Target) (st : State) (c : TaskId) :
    Request → Phase → Prop
  | .acquire target _, .connecting _ descriptor =>
    (registry target = some descriptor ∧ descriptor.active = true) ∧
      ∃ timeout, st.LastDealing c (.connect target descriptor timeout)
  | .acquire _ _, .storing _ h => (c, .opened h) ∈ st.events
  | _, _ => True

theorem State.LastDealing.append {e : Event} (hlast : st.LastDealing d e) {es : List Event}
    (hevents : st'.events = st.events ++ es.map (c, ·)) (hne : d ≠ c) : st'.LastDealing d e := by
  obtain ⟨before, after, hst, hafter⟩ := hlast
  refine ⟨before, after ++ es.map (c, ·), by simp [hevents, hst], ?_⟩
  intro dealing hdealing
  rcases List.mem_append.1 hdealing with hdealing | hdealing
  · exact hafter dealing hdealing
  · obtain ⟨e', -, rfl⟩ := List.mem_map.1 hdealing
    exact hne.symm

theorem State.OpenedWith.append {descriptor : Target} (hopened : st.OpenedWith h target descriptor)
    (hevents : st.events <+: st'.events) : st'.OpenedWith h target descriptor := by
  obtain ⟨d, timeout, before, between, after, hst, hbetween⟩ := hopened
  obtain ⟨rest, hrest⟩ := hevents
  exact ⟨d, timeout, before, between, after ++ rest, by simp [← hrest, hst], hbetween⟩

/-- The dealings of one task leave what the log tells of the others. -/
theorem State.Trace.append {q : Phase} (htrace : st.Trace registry d r q) {es : List Event}
    (hevents : st'.events = st.events ++ es.map (c, ·)) (hne : d ≠ c) :
    st'.Trace registry d r q := by
  cases r with
  | acquire target use =>
    cases q with
    | connecting s descriptor =>
      obtain ⟨hactive, timeout, hlast⟩ := htrace
      exact ⟨hactive, timeout, hlast.append hevents hne⟩
    | storing s hd =>
      have hmem : (d, Event.opened hd) ∈ st'.events :=
        hevents ▸ List.mem_append_left _ htrace
      exact hmem
    | _ => trivial
  | _ => cases q <;> trivial

/-- The log accounts for every connection that was asked for, for every handle and for every
    task. -/
structure Traced (registry : String → Option Target) (st : State) : Prop where
  asked : ∀ {c : TaskId} {target : String} {descriptor : Target} {timeout : Nat},
    (c, .connect target descriptor timeout) ∈ st.events →
      registry target = some descriptor ∧ descriptor.active = true
  opened : ∀ {h : HandleId} {target : String}, st.opened[h]? = some target →
    ∃ descriptor, registry target = some descriptor ∧ descriptor.active = true ∧
      st.OpenedWith h target descriptor
  trace : ∀ {c : TaskId} {r p}, st.tasks[c]? = some ⟨r, p⟩ → st.Trace registry c r p

namespace Traced

theorem submit (htraced : Traced registry st) (r : Request) : Traced registry (st.submit r) := by
  refine ⟨htraced.asked, htraced.opened, fun {d r' p'} htask => ?_⟩
  rcases Nat.lt_or_ge d st.tasks.length with hd | hd
  · have htask : st.tasks[d]? = some ⟨r', p'⟩ := by
      simpa [List.getElem?_append_left hd] using htask
    exact htraced.trace htask
  · obtain ⟨-, rfl, rfl⟩ : d - st.tasks.length = 0 ∧ r = r' ∧ r.begin = p' := by
      simpa [List.getElem?_append_right hd, List.getElem?_singleton] using htask
    cases r <;> trivial

/-- A task goes on with some dealings with the store. -/
theorem enter (htraced : Traced registry st) (htask : st.tasks[c]? = some ⟨r, p⟩)
    (htasks : st'.tasks = st.tasks.modify c fun t => { t with phase := p' }) (es : List Event)
    (hevents : st'.events = st.events ++ es.map (c, ·))
    (hasked : ∀ {target : String} {descriptor : Target} {timeout : Nat},
      .connect target descriptor timeout ∈ es →
        registry target = some descriptor ∧ descriptor.active = true)
    (hopened : ∀ {h : HandleId} {target : String}, st'.opened[h]? = some target →
      st.opened[h]? = some target ∨
        ∃ descriptor, registry target = some descriptor ∧ descriptor.active = true ∧
          st'.OpenedWith h target descriptor)
    (hself : st'.Trace registry c r p') : Traced registry st' := by
  refine ⟨fun {d target descriptor timeout} hmem => ?_, fun {hd target} ho => ?_,
    fun {d r' q} htask' => ?_⟩
  · -- the connections that were asked for
    rw [hevents] at hmem
    rcases List.mem_append.1 hmem with hmem | hmem
    · exact htraced.asked hmem
    · obtain ⟨e, he, heq⟩ := List.mem_map.1 hmem
      cases heq
      exact hasked he
  · -- with what a handle was opened
    rcases hopened ho with ho | hnew
    · obtain ⟨descriptor, hregistry, hactive, hwith⟩ := htraced.opened ho
      exact ⟨descriptor, hregistry, hactive, hwith.append ⟨_, hevents.symm⟩⟩
    · exact hnew
  · -- what each task knows of its own connection
    rw [getElem?_of_enter htask htasks] at htask'
    split at htask'
    · rename_i hdc
      cases htask'
      exact hdc ▸ hself
    · rename_i hdc
      exact (htraced.trace htask').append hevents hdc

theorem look (htraced : Traced registry st) (htask : st.tasks[c]? = some ⟨r, p⟩)
    (hlook : Look st c r p p' st') : Traced registry st' := by
  have hself : st'.Trace registry c r p' := by
    cases hlook <;> trivial
  have hopened : st'.opened = st.opened := by cases hlook <;> rfl
  exact htraced.enter htask hlook.tasks [] (by simp [hlook.events]) (fun hmem => nomatch hmem)
    (fun ho => .inl (hopened ▸ ho)) hself

theorem turn (htraced : Traced registry st) (htask : st.tasks[c]? = some ⟨r, p⟩)
    (hturn : Turn timeout st c r p p' st')
    (hresolved : ∀ {target use s s' descriptor}, r = .acquire target use → p = .resolving s →
      p' = .connecting s' descriptor → registry target = some descriptor) :
    Traced registry st' := by
  -- most turns ask for no connection and open nothing
  have hquiet (es : List Event) (hevents : st'.events = st.events ++ es.map (c, ·))
      (hasked : ∀ e ∈ es, ∀ target descriptor timeout, e ≠ .connect target descriptor timeout)
      (hopened : st'.opened = st.opened) (hself : st'.Trace registry c r p') :
      Traced registry st' :=
    htraced.enter htask hturn.tasks es hevents (fun hmem => absurd rfl (hasked _ hmem _ _ _))
      (fun ho => .inl (hopened ▸ ho)) hself
  cases hturn with
  | @asked target use s descriptor hactive =>
    have hregistry := hresolved rfl rfl rfl
    refine htraced.enter htask rfl [.connect target descriptor timeout] rfl
      (fun hmem => ?_) .inl ⟨⟨hregistry, hactive⟩, timeout, st.events, [], rfl, nofun⟩
    cases List.mem_singleton.1 hmem
    exact ⟨hregistry, hactive⟩
  | @connected target use s descriptor =>
    -- the trace of the task says with what it asked, and that nothing of it came in between
    obtain ⟨⟨hregistry, hactive⟩, timeout', before, after, hst, hafter⟩ := htraced.trace htask
    refine htraced.enter htask rfl [.opened st.opened.length] rfl
      (fun hmem => nomatch List.mem_singleton.1 hmem) (fun {hd name} ho => ?_)
      (by simp [State.Trace])
    -- the handles from before, the new one, and none behind it
    rcases Nat.lt_trichotomy hd st.opened.length with hlt | rfl | hgt
    · exact .inl (by simpa [List.getElem?_append_left hlt] using ho)
    · obtain rfl : target = name := by simpa using ho
      exact .inr ⟨descriptor, hregistry, hactive, c, timeout', before, after, [],
        by simp [hst], hafter⟩
    · rw [List.getElem?_eq_none (by simpa using Nat.succ_le_of_lt hgt)] at ho
      cases ho
  | @alive target use s hd =>
    refine hquiet (.probed hd true :: use.events hd) ?_ ?_ (State.opened_useHandle ..) ?_
    · simp [State.useHandle_eq, State.release]
    · cases use <;> simp [Use.events]
    · cases use <;> trivial
  | @stored target use s hd =>
    refine hquiet (use.events hd) ?_ ?_ (State.opened_useHandle ..) ?_
    · simp [State.useHandle_eq, State.release, State.setEntry]
    · cases use <;> simp [Use.events]
    · cases use <;> trivial
  | @dead target use s hd =>
    exact hquiet [.probed hd false, .closed hd]
      (by simp [State.closeHandle_eq, State.setEntry]) (by simp) rfl trivial
  | @emptied target s hd | @swept s hd =>
    exact hquiet [.closed hd]
      (by simp [State.closeHandle_eq, State.release, State.setEntry]) (by simp) rfl trivial
  | _ => exact hquiet [] (by simp [State.release]) (by simp) rfl trivial

end Traced

theorem ReachableUnder.traced (hreach : ReachableUnder registry st) : Traced registry st := by
  induction hreach with
  | start => exact ⟨nofun, nofun, nofun⟩
  | submit _ r ih => exact ih.submit r
  | @step st st' timeout c answer _ hagrees hstep ih =>
    obtain ⟨r, p, htask, hmove⟩ := move_of_step hstep
    cases hmove with
    | lockTable | lock | queue => exact ⟨ih.asked, ih.opened, ih.trace⟩
    | look hholder hlook =>
      have hafter := ih.look htask hlook
      exact ⟨hafter.asked, hafter.opened, hafter.trace⟩
    | turn hturn =>
      refine ih.turn htask hturn ?_
      rintro target use s s' descriptor rfl rfl rfl
      have hanswer := State.answer_of_asked htask hstep (getElem?_self_of_enter htask hturn.tasks)
      exact (hagrees _ htask target use _ rfl hanswer).symm

/-! ## Handles that are returned -/

/-- Whether a step of an acquisition returns a handle: the call was on its way before, and has the
    handle for its use now. -/
def State.Returns (st : State) (c : TaskId) (target : String) (h : HandleId) (st' : State) : Prop :=
  (∃ timeout answer, st.step? timeout c answer = some st') ∧
    ∃ use p, st.tasks[c]? = some ⟨.acquire target use, p⟩ ∧ p.isOver = false ∧
      st'.tasks[c]? = some ⟨.acquire target use, use.phase h⟩

/-- A task that leaves its slot with a reply has not acquired a handle. -/
theorem Reachable.unavailable_of_leaving (hreach : Reachable st) {s : SlotId} {reply : Reply}
    (htask : st.tasks[c]? = some ⟨.acquire target use, .leaving s (some reply)⟩) :
    ∃ reason, reply = .failed (.unavailable target reason) := by
  refine hreach.of_phases (I := fun r p => ∀ target use s reply, r = .acquire target use →
    p = .leaving s (some reply) → ∃ reason, reply = .failed (.unavailable target reason))
    ?_ ?_ ?_ htask target use s reply rfl rfl
  · rintro r target use s reply rfl hp
    cases hp
  · rintro st st' c r p p' hlook - target use s reply rfl rfl
    cases hlook
    exact ⟨_, rfl⟩
  · rintro timeout st st' c r p p' hturn - target use s reply rfl hp
    cases hturn with
    | alive | stored => cases use <;> cases hp
    | _ => cases hp

/-- A handle is returned by the call that has found it alive, or by the one that has opened it. -/
theorem State.Returns.cases (hreach : Reachable st) (hreturns : st.Returns c target h st') :
    ∃ use s,
      (st.tasks[c]? = some ⟨.acquire target use, .probing s h⟩ ∧
        st' = ((st.emit c (.probed h true)).release s).useHandle c use h) ∨
      (st.tasks[c]? = some ⟨.acquire target use, .storing s h⟩ ∧
        st' = ((st.setEntry s (some h)).release s).useHandle c use h) := by
  obtain ⟨⟨timeout, answer, hstep⟩, use, p, htask, hover, htask'⟩ := hreturns
  obtain ⟨r, q, hmoved, hmove⟩ := move_of_step hstep
  cases htask.symm.trans hmoved
  -- whatever the step was, the task is now where a returned handle is used
  have hphase {q : Phase} {tasks : List Task}
      (htasks : tasks = st.tasks.modify c fun t => { t with phase := q })
      (hafter : tasks[c]? = some ⟨.acquire target use, use.phase h⟩) : q = use.phase h := by
    cases (getElem?_self_of_enter htask htasks).symm.trans hafter
    rfl
  cases hmove with
  | lockTable | lock | queue =>
    cases htask.symm.trans htask'
    simp at hover
  | look hholder hlook =>
    have hq := hphase hlook.tasks htask'
    -- no look leads to the use of a handle
    cases hlook <;> cases use <;> cases hq
  | turn hturn =>
    have hq := hphase hturn.tasks htask'
    cases hturn with
    | @alive _ _ s hd =>
      obtain rfl : hd = h := by cases use <;> cases hq <;> rfl
      exact ⟨use, s, .inl ⟨htask, rfl⟩⟩
    | @stored _ _ s hd =>
      obtain rfl : hd = h := by cases use <;> cases hq <;> rfl
      exact ⟨use, s, .inr ⟨htask, rfl⟩⟩
    -- who leaves with a reply leaves with a failure
    | left =>
      obtain ⟨reason, rfl⟩ := hreach.unavailable_of_leaving htask
      cases use <;> cases hq
    | used => cases hover
    | _ => cases use <;> cases hq

/-- A handle that an acquisition has just opened is not closed. -/
theorem Account.closes_of_storing {owners : List String} {s : SlotId} (hacc : Account owners st)
    (htask : st.tasks[c]? = some ⟨.acquire target use, .storing s h⟩) : st.closes h = 0 := by
  obtain ⟨-, -, -, hopened⟩ := hacc.fits htask
  have hbalance := hacc.balance h
  have hfresh := fresh_pos_of_storing htask
  rw [if_pos (List.getElem?_eq_some_iff.1 hopened).1] at hbalance
  omega

/-- A handle that is returned is one of the target's, and is open. -/
theorem State.Returns.isOpen (hreach : Reachable st) (hreturns : st.Returns c target h st') :
    st.opened[h]? = some target ∧ st'.opened = st.opened ∧ st'.closes h = 0 := by
  obtain ⟨owners, hacc⟩ := hreach.account
  obtain ⟨use, s, ⟨htask, rfl⟩ | ⟨htask, rfl⟩⟩ := hreturns.cases hreach
  · obtain ⟨howner, hentry, -⟩ := hacc.fits htask
    obtain ⟨name, howner', hopened⟩ := hacc.cached hentry
    cases howner.symm.trans howner'
    refine ⟨hopened, State.opened_useHandle .., ?_⟩
    rw [State.closes_useHandle]
    have hprobed := State.closes_emit st c (.probed h true) h
    exact hprobed.trans (State.mem_live.1 (hacc.mem_live_of_entry hentry)).2
  · obtain ⟨-, -, -, hopened⟩ := hacc.fits htask
    refine ⟨hopened, State.opened_useHandle .., ?_⟩
    rw [State.closes_useHandle]
    exact hacc.closes_of_storing htask

/-- In every state that calls of the cache can come to, in any order of their steps, while the
    registry stays as it is: a connection was only ever asked for with the descriptor that the
    registry holds for the target, which is active; and a handle that an acquisition returns was
    opened for its target with that descriptor, by the call itself or else the call has found it
    alive, and nobody has closed it. -/
theorem ReachableUnder.returned_handle (hreach : ReachableUnder registry st) :
    (∀ c target descriptor timeout, (c, .connect target descriptor timeout) ∈ st.events →
      registry target = some descriptor ∧ descriptor.active = true) ∧
    ∀ c target h st', st.Returns c target h st' →
      st'.opened[h]? = some target ∧
      (∃ descriptor, registry target = some descriptor ∧ descriptor.active = true ∧
        st'.OpenedWith h target descriptor) ∧
      ((c, .opened h) ∈ st'.events ∨ (c, .probed h true) ∈ st'.events) ∧
      st'.closes h = 0 := by
  have htraced := hreach.traced
  refine ⟨fun _ _ _ _ hmem => htraced.asked hmem, fun c target h st' hreturns => ?_⟩
  obtain ⟨hopened, hsame, hclosed⟩ := hreturns.isOpen hreach.reachable
  obtain ⟨descriptor, hregistry, hactive, hwith⟩ := htraced.opened hopened
  obtain ⟨timeout, answer, hstep⟩ := hreturns.1
  obtain ⟨r, p, -, hmove⟩ := move_of_step hstep
  refine ⟨hsame ▸ hopened, ⟨descriptor, hregistry, hactive, hwith.append hmove.events⟩, ?_, hclosed⟩
  obtain ⟨use, s, ⟨-, rfl⟩ | ⟨htask, -⟩⟩ := hreturns.cases hreach.reachable
  · exact .inr (by simp [State.useHandle_eq, State.release])
  · exact .inl (hmove.events.mem (htraced.trace htask))

end

/-- A cache whose second call has come to the handle that the first one has opened. -/
def State.revisited : State where
  table := { mapped := [("a", 0)], slots := [{ entry := some 0, holder := some 1 }] }
  tasks := [⟨.acquire "a" .keep, .finished (.handle 0)⟩, ⟨.acquire "a" .keep, .probing 0 0⟩]
  opened := ["a"]
  events := [(0, .connect "a" ⟨"h", none, "n", true⟩ 100), (0, .opened 0)]

/-- A registry of one target. -/
def registryOf (name : String) (descriptor : Target) (target : String) : Option Target :=
  if target = name then some descriptor else none

theorem reachable_revisited :
    ReachableUnder (registryOf "a" ⟨"h", none, "n", true⟩) .revisited := by
  have hsteps : ((State.submit {} (.acquire "a" .keep)).submit (.acquire "a" .keep)).steps? 100
      (State.asking 0 ⟨"h", none, "n", true⟩ ++ [(0, .connected), (0, .proceed)] ++
        List.replicate 6 (1, .proceed)) = some .revisited := rfl
  refine ((ReachableUnder.start.submit _).submit _).of_steps ?_ hsteps
  rintro ⟨c, answer⟩ hmove r hr target use descriptor rfl rfl
  obtain ⟨rfl, -⟩ : target = "a" ∧ use = .keep := by simpa using hr
  obtain ⟨-, rfl⟩ : c = 0 ∧ descriptor = some ⟨"h", none, "n", true⟩ := by
    simpa [State.asking, List.mem_replicate] using hmove
  rfl

theorem returned_handle_revisited : ∃ st', State.revisited.Returns 1 "a" 0 st' ∧
    st'.opened[0]? = some "a" ∧
    (∃ descriptor, registryOf "a" ⟨"h", none, "n", true⟩ "a" = some descriptor ∧
      descriptor.active = true ∧ st'.OpenedWith 0 "a" descriptor) ∧
    ((1, .opened 0) ∈ st'.events ∨ (1, .probed 0 true) ∈ st'.events) ∧ st'.closes 0 = 0 := by
  have hreturns : State.revisited.Returns 1 "a" 0
      (((State.revisited.emit 1 (.probed 0 true)).release 0).useHandle 1 .keep 0) :=
    ⟨⟨100, .alive true, rfl⟩, .keep, _, rfl, rfl, rfl⟩
  exact ⟨_, hreturns, reachable_revisited.returned_handle.2 _ _ _ _ hreturns⟩

end ShellQuery.Cache
