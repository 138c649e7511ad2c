/-
  ShellQuery.Proofs.Cache.Live

  How many handles of one target are open. There is one slot for a target in the table, and one
  handle in a slot; but a slot that a call of close has dropped from the table keeps its handle, or
  its acquisition, until that call comes to it, and meanwhile another acquisition makes a new slot.
  So a target has at most one open handle (`Reachable.live_unique`) unless such a call is on its
  way, and then it may have more (`exists_two_live`).
-/
import ShellQuery.Proofs.Cache.Place

namespace ShellQuery.Cache

/-- Whether a handle is in a slot, or with the acquisition that is about to put it there. -/
def State.Occupies (st : State) (h : HandleId) (s : SlotId) : Prop :=
  st.entry s = some h ∨
    ∃ (c : TaskId) (r : Request), st.tasks[c]? = some ⟨r, .storing s h⟩ ∧ st.entry s = none

namespace Account

variable {owners : List String} {st : State} {target : String}

/-- An open handle of a target occupies a slot that was made for the target. -/
theorem exists_slot_of_live (hacc : Account owners st) {h : HandleId} (hlive : h ∈ st.live)
    (hopened : st.opened[h]? = some target) :
    ∃ s, owners[s]? = some target ∧ st.Tracked s ∧ st.Occupies h s := by
  obtain ⟨hlt, hclosed⟩ := State.mem_live.1 hlive
  obtain ⟨place, hplace⟩ := hacc.exists_place hlt
  cases place with
  | cached s =>
    obtain ⟨name, howner, hname⟩ := hacc.cached hplace
    cases hopened.symm.trans hname
    exact ⟨s, howner, hacc.tracked hplace, .inl hplace⟩
  | held c =>
    obtain ⟨name, use, s, htask⟩ := hplace
    obtain ⟨howner, hnone, htracked, hname⟩ := hacc.fits htask
    cases hopened.symm.trans hname
    exact ⟨s, howner, htracked, .inr ⟨c, _, htask, hnone⟩⟩
  | taken c =>
    obtain ⟨r, p, htask, hp⟩ := hplace
    have hpos := Nat.lt_of_lt_of_le (taken_pos_of_taken htask hp) (hacc.taken h)
    omega
  | closed => exact absurd hclosed (Nat.ne_of_gt hplace.1)

end Account

/-- Two handles that occupy the same slot are one. -/
theorem Locks.occupies_unique {st : State} (hlocks : Locks st) {s : SlotId} {h h' : HandleId}
    (hs : st.Occupies h s) (hs' : st.Occupies h' s) : h = h' := by
  rcases hs with he | ⟨c, r, htask, hnone⟩ <;> rcases hs' with he' | ⟨c', r', htask', hnone'⟩
  · exact Option.some.inj (he.symm.trans he')
  · simp [hnone'] at he
  · simp [hnone] at he'
  · have hc := hlocks.holds htask (s := s) rfl
    have hc' := hlocks.holds htask' (s := s) rfl
    cases hc.symm.trans hc'
    cases htask.symm.trans htask'
    rfl

/-- A target has at most one open handle, unless a call of close for the target, or for all, is on
    its way to a slot that it has dropped from the table. -/
theorem Reachable.live_unique {st : State} (hreach : Reachable st) {target : String}
    (hquiet : ∀ (c : TaskId) (r : Request) (p : Phase), st.tasks[c]? = some ⟨r, p⟩ →
      r = .close target ∨ r = .closeAll → p.pending = [])
    {h h' : HandleId} (hlive : h ∈ st.live) (hlive' : h' ∈ st.live)
    (hopened : st.opened[h]? = some target) (hopened' : st.opened[h']? = some target) : h = h' := by
  obtain ⟨owners, hacc⟩ := hreach.account
  have hfind {s : SlotId} (howner : owners[s]? = some target) (htracked : st.Tracked s) :
      st.table.find? target = some s := by
    rcases htracked with ⟨name, hmem⟩ | ⟨c, ⟨r, p⟩, htask, hpending⟩
    · have hname : name = target := Option.some.inj ((hacc.owned hmem).symm.trans howner)
      exact Table.find?_of_mem hacc.keys (hname ▸ hmem)
    · have hnil := hquiet c r p htask (hacc.request_of_pending htask hpending howner)
      simp [hnil] at hpending
  obtain ⟨s, howner, htracked, hs⟩ := hacc.exists_slot_of_live hlive hopened
  obtain ⟨s', howner', htracked', hs'⟩ := hacc.exists_slot_of_live hlive' hopened'
  cases (hfind howner htracked).symm.trans (hfind howner' htracked')
  exact hreach.locks.occupies_unique hs hs'

theorem live_unique_acquired :
    ∀ h ∈ State.acquired.live, State.acquired.opened[h]? = some "a" → h = 0 := by
  intro h hlive hopened
  refine reachable_acquired.live_unique ?_ hlive (by decide) hopened rfl
  intro c r p htask hr
  cases c <;> simp [State.acquired] at htask
  simp [← htask.1] at hr

/-! ## A race -/

/-- Two acquisitions for a target and a call of close that came between: the first was still to
    connect when its slot was dropped, and the second has a slot of its own. -/
def State.raced : State where
  table := { mapped := [("a", 1)], slots := [{ entry := some 0 }, { entry := some 1 }] }
  tasks := [⟨.acquire "a" .keep, .finished (.handle 0)⟩, ⟨.close "a", .emptying 0⟩,
    ⟨.acquire "a" .keep, .finished (.handle 1)⟩]
  opened := ["a", "a"]
  events := [(0, .connect "a" ⟨"h", none, "n", true⟩ 100),
    (2, .connect "a" ⟨"h", none, "n", true⟩ 100), (0, .opened 0), (2, .opened 1)]

theorem reachable_raced : Reachable .raced := by
  have hsteps : (((State.submit {} (.acquire "a" .keep)).submit (.close "a")).submit
      (.acquire "a" .keep)).steps? 100 (State.asking 0 ⟨"h", none, "n", true⟩ ++
        [(1, .proceed), (1, .proceed)] ++ State.asking 2 ⟨"h", none, "n", true⟩ ++
        [(0, .connected), (2, .connected), (0, .proceed), (2, .proceed)]) = some .raced := rfl
  exact ((((Run.refl {}).submit _).submit _).submit _).trans (.of_steps hsteps)

/-- A target may have two open handles. -/
theorem exists_two_live : ∃ st, Reachable st ∧ 0 ∈ st.live ∧ 1 ∈ st.live ∧
    st.opened[0]? = some "a" ∧ st.opened[1]? = some "a" :=
  ⟨.raced, reachable_raced, by decide, by decide, rfl, rfl⟩

end ShellQuery.Cache
