/-
  ShellQuery.Proofs.Cache.Effort

  How many steps a cache can still take when no more calls are made. A task has so much work left,
  one round at most, as long as its slot stays mapped (`Phase.work`). A stale slot costs it another
  round, and a task that may yet drop a slot may cost every task one (`State.cost`). The effort is
  the sum of these costs; every step lowers it (`Reachable.effort_lt`), whatever the order.
-/
import Mathlib.Algebra.BigOperators.Group.Finset.Basic
import Mathlib.Algebra.Order.BigOperators.Group.Finset
import ShellQuery.Proofs.Cache.Bounds
import ShellQuery.Proofs.Cache.Rounds

namespace ShellQuery.Cache

variable {timeout n : Nat} {st st' : State} {c d : TaskId} {r r' : Request} {p p' q : Phase}
  {s : SlotId}

/-! ## Work -/

namespace Phase

/-- The looks and turns that a task still takes at most, but for further rounds of an acquisition,
    where no more than `n` targets are ever mapped. -/
def work (n : Nat) : Phase → Nat
  | .finding => 9
  | .entering _ => 8
  | .checking _ => 7
  | .probing _ _ => 6
  | .discarding _ _ => 5
  | .resolving _ => 4
  | .connecting _ _ => 3
  | .storing _ _ | .evicting _ _ => 2
  | .leaving _ _ | .using _ => 1
  | .unmapping => 3
  | .emptying _ => 2
  | .closing _ => 1
  | .unmappingAll => 2 * n + 1
  | .sweeping pending => 2 * pending.length
  | .sweepClosing _ _ pending => 2 * pending.length + 1
  | .looking => 2
  | .peeking _ => 1
  | .listing => n + 1
  | .counting pending _ => pending.length
  | .finished _ => 0

/-- Whether a task may still come to drop a slot. -/
def mayDrop : Phase → Bool
  | .finding | .entering _ | .checking _ | .probing _ _ | .discarding _ _ | .resolving _
  | .connecting _ _ | .evicting _ _ | .leaving _ none | .unmapping | .unmappingAll => true
  | _ => false

theorem work_sweep (n : Nat) (pending : List SlotId) :
    (sweep pending).work n = 2 * pending.length := by
  cases pending <;> rfl

theorem work_count (n found : Nat) (pending : List SlotId) :
    (count found pending).work n = pending.length := by
  cases pending <;> rfl

@[simp] theorem mayDrop_sweep (pending : List SlotId) : (sweep pending).mayDrop = false := by
  cases pending <;> rfl

@[simp] theorem mayDrop_count (found : Nat) (pending : List SlotId) :
    (count found pending).mayDrop = false := by
  cases pending <;> rfl

end Phase

theorem Use.work_phase (use : Use) (h : HandleId) (n : Nat) : (use.phase h).work n ≤ 1 := by
  cases use
  · exact Nat.zero_le 1
  · exact Nat.le_refl 1
  · exact Nat.le_refl 1

@[simp] theorem Use.mayDrop_phase (use : Use) (h : HandleId) : (use.phase h).mayDrop = false := by
  cases use <;> rfl

/-- A look takes work off. -/
theorem Look.work (h : Look st c r p p' st') (hn : st.table.mapped.length ≤ n) :
    p'.work n < p.work n := by
  have hlength {pending : List SlotId} (horder : pending.Perm (st.table.mapped.map Prod.snd)) :
      pending.length ≤ n := by
    rwa [horder.length_eq, List.length_map]
  cases h with
  | unmappedAll horder =>
    have hpending := hlength horder
    rw [Phase.work_sweep, Phase.work]
    omega
  | listed horder =>
    have hpending := hlength horder
    rw [Phase.work_count, Phase.work]
    omega
  | _ => simp only [Phase.work, Nat.reduceLT]

/-- Who looks at the table to drop a slot drops none later. -/
theorem Look.mayDrop (h : Look st c r p p' st') :
    (p'.mayDrop = true → p.mayDrop = true) ∧
      (p.drops = true → p.mayDrop = true ∧ p'.mayDrop = false) := by
  cases h with
  | unmappedAll => exact ⟨fun _ => rfl, fun _ => ⟨rfl, Phase.mayDrop_sweep _⟩⟩
  | listed =>
    rw [Phase.mayDrop_count]
    exact ⟨fun h => absurd h Bool.false_ne_true, fun h => absurd h Bool.false_ne_true⟩
  | _ => simp [Phase.mayDrop, Phase.drops]

/-- A turn takes work off, unless it begins another round. -/
theorem Turn.work (h : Turn timeout st c r p p' st') :
    p'.work n < p.work n ∨
      p'.work n = p.work n + 8 ∧ st.table.isStale r p = true ∧ st'.table.isStale r p' = false := by
  cases h with
  | retried => exact .inr ⟨rfl, rfl, rfl⟩
  | @alive _ use _ h | @stored _ use _ h =>
    have hle := use.work_phase h n
    refine .inl (Nat.lt_of_le_of_lt hle ?_)
    simp only [Phase.work, Nat.reduceLT]
  | sweptEmpty | sweepClosed =>
    rw [Phase.work_sweep]
    simp only [Phase.work, List.length_cons]
    omega
  | swept =>
    simp only [Phase.work, List.length_cons]
    omega
  | counted =>
    rw [Phase.work_count]
    simp only [Phase.work, List.length_cons]
    omega
  | _ => exact .inl (by simp only [Phase.work, Nat.reduceLT])

theorem Turn.mayDrop (h : Turn timeout st c r p p' st') :
    p'.mayDrop = true → p.mayDrop = true := by
  cases h with
  | alive | stored | sweptEmpty | sweepClosed | counted => simp
  | _ => simp [Phase.mayDrop]

/-! ## Lines -/

/-- Whether a task has the lock of a slot or waits for it. -/
def Slot.InLine (slot : Slot) (d : TaskId) : Prop :=
  slot.holder = some d ∨ d ∈ slot.waiting

instance (slot : Slot) (d : TaskId) : Decidable (slot.InLine d) :=
  inferInstanceAs (Decidable (_ ∨ _))

/-- Who waits for a lock that is given up has it next or waits on. -/
theorem Slot.inLine_release {slot : Slot} (h : d ∈ slot.waiting) : slot.release.InLine d := by
  cases hw : slot.waiting with
  | nil => simp [hw] at h
  | cons next rest =>
    rw [hw] at h
    rcases List.mem_cons.1 h with rfl | h
    · exact .inl (by simp [release, hw])
    · exact .inr (by simpa [release, hw] using h)

theorem Table.inLine_modifySlot {t : Table} {s s' : SlotId} {f : Slot → Slot}
    (hf : (t.slot s).InLine d → (f (t.slot s)).InLine d) (h : (t.slot s').InLine d) :
    ((t.modifySlot s f).slot s').InLine d := by
  by_cases hs : s = s'
  · subst hs
    rcases Nat.lt_or_ge s t.slots.length with hlt | hge
    · rw [Table.slot_modifySlot_self hlt]
      exact hf h
    · rwa [Table.modifySlot_of_le hge]
  · rwa [Table.slot_modifySlot_of_ne hs]

/-- A move puts no other task out of a line. -/
theorem Move.inLine (hmove : Move timeout st c r p st') (hlocks : Locks st)
    (htask : st.tasks[c]? = some ⟨r, p⟩) (hne : d ≠ c) (s : SlotId)
    (h : (st.table.slot s).InLine d) : (st'.table.slot s).InLine d := by
  cases hmove with
  | lockTable => exact h
  | lock _ hfree =>
    refine Table.inLine_modifySlot (fun hd => .inr ?_) h
    exact hd.resolve_left (by simp [hfree])
  | queue =>
    refine Table.inLine_modifySlot (fun hd => ?_) h
    exact hd.imp_right fun hmem => List.mem_append_left _ hmem
  | look _ hlook =>
    have hslot := hlook.slot s
    rwa [← hslot] at h
  | turn hturn =>
    rcases hturn.table_cases with ⟨htable, -⟩ | ⟨s', f, hslot, htable, hf⟩
    · rwa [htable]
    · rw [htable]
      refine Table.inLine_modifySlot (fun hd => ?_) h
      -- it is the moving task that has the slot
      have hholder := (hlocks.holder_iff (s := s') htask hturn.arrived).2 hslot
      have hwaiting : d ∈ (st.table.slot s').waiting := by
        refine hd.resolve_left fun hd => hne ?_
        exact Option.some.inj (hd.symm.trans hholder)
      rcases hf with ⟨hsame, -⟩ | ⟨hsame, -⟩
      · refine .inr ?_
        rw [(hsame _).waiting]
        exact hwaiting
      · rw [Slot.InLine, (hsame _).holder, (hsame _).waiting]
        exact Slot.inLine_release hwaiting

/-- A move takes the lock of the table from no other task. -/
theorem Move.holder_other (hmove : Move timeout st c r p st') (hne : d ≠ c)
    (h : st.table.holder = some d) : st'.table.holder = some d := by
  cases hmove with
  | lockTable _ hfree =>
    rw [hfree] at h
    cases h
  | lock | queue => exact h
  | look hholder => exact absurd (Option.some.inj (h.symm.trans hholder)) hne
  | turn hturn => exact hturn.holder.trans h

namespace State

/-- Whether a task wants a lock, and neither has it nor is in line for it. -/
def OutOfLine (st : State) (c : TaskId) (p : Phase) : Prop :=
  (p.wantsTable = true ∧ st.table.holder ≠ some c) ∨
    ∃ s, p.wants? = some s ∧ ¬ (st.table.slot s).InLine c

instance (st : State) (c : TaskId) (p : Phase) : Decidable (st.OutOfLine c p) :=
  decidable_of_iff ((p.wantsTable = true ∧ st.table.holder ≠ some c) ∨
    p.wants?.any (fun s => !decide ((st.table.slot s).InLine c)) = true)
    (by simp [OutOfLine, Option.any_eq_true])

theorem not_outOfLine_of_wantsTable (hwants : p.wantsTable = true)
    (h : st.table.holder = some c) : ¬ st.OutOfLine c p := by
  rintro (⟨-, hnot⟩ | ⟨s, hslot, -⟩)
  · exact hnot h
  · rw [Phase.wants?_eq_none_of_wantsTable hwants] at hslot
    cases hslot

theorem not_outOfLine_of_wants? (hwants : p.wants? = some s) (h : (st.table.slot s).InLine c) :
    ¬ st.OutOfLine c p := by
  rintro (⟨htable, -⟩ | ⟨s', hslot, hnot⟩)
  · rw [Phase.wants?_eq_none_of_wantsTable htable] at hwants
    cases hwants
  · cases hwants.symm.trans hslot
    exact hnot h

end State

/-- A move puts no other task out of line. -/
theorem Move.outOfLine (hmove : Move timeout st c r p st') (hlocks : Locks st)
    (htask : st.tasks[c]? = some ⟨r, p⟩) (hne : d ≠ c) (h : st'.OutOfLine d q) :
    st.OutOfLine d q := by
  rcases h with ⟨hwants, hholder⟩ | ⟨s, hwants, hline⟩
  · exact .inl ⟨hwants, fun hd => hholder (hmove.holder_other hne hd)⟩
  · exact .inr ⟨s, hwants, fun hd => hline (hmove.inLine hlocks htask hne s hd)⟩

/-! ## Costs -/

namespace State

/-- What a task may cost in steps, where `n` calls were made. A look or a turn comes to at most two
    steps, as there is at most one lock to line up for after it; another round, to eighteen. -/
def costIn (st : State) (n : Nat) (c : TaskId) (r : Request) (p : Phase) : Nat :=
  18 * (n * p.mayDrop.toNat + (st.table.isStale r p).toNat) + 2 * p.work n +
    if st.OutOfLine c p then 1 else 0

/-- What a task may cost in steps. -/
def cost (st : State) (c : TaskId) : Nat :=
  match st.tasks[c]? with
  | none => 0
  | some ⟨r, p⟩ => st.costIn st.tasks.length c r p

/-- What all calls that were made may cost in steps. -/
def effort (st : State) : Nat :=
  ∑ c ∈ Finset.range st.tasks.length, st.cost c

theorem cost_eq (htask : st.tasks[c]? = some ⟨r, p⟩) :
    st.cost c = st.costIn st.tasks.length c r p := by
  rw [cost, htask]

end State

/-- One summand goes down by more than all the others together go up. -/
theorem sum_lt_sum_of_paid {f f' : Nat → Nat} {a : Nat} (hc : c < n)
    (hself : f' c + n * a < f c) (hother : ∀ d, d ≠ c → f' d ≤ f d + a) :
    ∑ d ∈ Finset.range n, f' d < ∑ d ∈ Finset.range n, f d := by
  have hmem : c ∈ Finset.range n := Finset.mem_range.2 hc
  have hcard : ((Finset.range n).erase c).card ≤ n := by
    rw [Finset.card_erase_of_mem hmem, Finset.card_range]
    exact Nat.sub_le n 1
  have hrest : ∑ d ∈ (Finset.range n).erase c, f' d ≤
      ∑ d ∈ (Finset.range n).erase c, f d + n * a := by
    calc ∑ d ∈ (Finset.range n).erase c, f' d
        ≤ ∑ d ∈ (Finset.range n).erase c, (f d + a) :=
          Finset.sum_le_sum fun d hd => hother d (Finset.ne_of_mem_erase hd)
      _ = ∑ d ∈ (Finset.range n).erase c, f d + ((Finset.range n).erase c).card * a := by
          rw [Finset.sum_add_distrib, Finset.sum_const_nat fun _ _ => rfl]
      _ ≤ ∑ d ∈ (Finset.range n).erase c, f d + n * a :=
          Nat.add_le_add_left (Nat.mul_le_mul_right a hcard) _
  rw [← Finset.add_sum_erase _ f' hmem, ← Finset.add_sum_erase _ f hmem]
  omega

/-! ## What a move costs -/

theorem Table.isStale_congr {t t' : Table} (h : t'.mapped = t.mapped) (r : Request) (p : Phase) :
    t'.isStale r p = t.isStale r p := by
  have hfind : ∀ target, t'.find? target = t.find? target := by
    intro target
    rw [find?, h, find?]
  unfold isStale isCurrent
  simp only [hfind]

theorem toNat_le_of_imp {a b : Bool} (h : a = true → b = true) : a.toNat ≤ b.toNat := by
  cases a with
  | false => exact Nat.zero_le _
  | true => rw [h rfl]

namespace Move

variable (hmove : Move timeout st c r p st')
include hmove

/-- Where no slot is dropped, none becomes stale. -/
theorem isStale_other (r' : Request) (q : Phase) :
    (st'.table.isStale r' q).toNat ≤ (st.table.isStale r' q).toNat + p.drops.toNat := by
  cases hstale : st'.table.isStale r' q with
  | false => exact Nat.zero_le _
  | true =>
    cases hdrops : p.drops with
    | true => exact Nat.le_add_left _ _
    | false =>
      have hbefore : st.table.isStale r' q = true := by
        cases r' with
        | acquire target use =>
          refine Table.isStale_of_kept (fun s hfind => ?_) hstale
          refine (hmove.find?_of_some hfind).resolve_right fun hdropped => ?_
          rw [Task.drops_of_removes hdropped.1] at hdrops
          cases hdrops
        | _ => cases hstale
      rw [hbefore]
      exact Nat.le_refl 1

/-- What a move costs another task: another round, if its slot becomes stale. -/
theorem costIn_other {a : Nat} (hlocks : Locks st) (htask : st.tasks[c]? = some ⟨r, p⟩)
    (hne : d ≠ c)
    (hstale : (st'.table.isStale r' q).toNat ≤ (st.table.isStale r' q).toNat + a) :
    st'.costIn n d r' q ≤ st.costIn n d r' q + 18 * a := by
  have hline : (if st'.OutOfLine d q then 1 else 0) ≤ if st.OutOfLine d q then 1 else 0 := by
    split
    · rename_i h
      rw [if_pos (hmove.outOfLine hlocks htask hne h)]
    · exact Nat.zero_le _
  simp only [State.costIn]
  omega

end Move

namespace State

/-- A task that lines up does what it would have to do anyway. -/
theorem costIn_lt_of_line (hmapped : st'.table.mapped = st.table.mapped)
    (hbefore : st.OutOfLine c p) (hafter : ¬ st'.OutOfLine c p) :
    st'.costIn n c r p < st.costIn n c r p := by
  rw [costIn, costIn, if_pos hbefore, if_neg hafter, Table.isStale_congr hmapped]
  exact Nat.lt_succ_self _

/-- A task that takes work off may have to line up once more. If it drops slots, it pays for the
    rounds that this costs the others. -/
theorem costIn_lt {a : Nat} (hdrops : p'.mayDrop.toNat + a ≤ p.mayDrop.toNat)
    (hwork : 18 * (st'.table.isStale r p').toNat + 2 * p'.work n + 1 <
      18 * (st.table.isStale r p).toNat + 2 * p.work n) :
    st'.costIn n c r p' + n * (18 * a) < st.costIn n c r p := by
  have hpaid : n * p'.mayDrop.toNat + n * a ≤ n * p.mayDrop.toNat := by
    rw [← Nat.mul_add]
    exact Nat.mul_le_mul_left n hdrops
  have hline : (if st'.OutOfLine c p' then 1 else 0) ≤ 1 := by
    split <;> omega
  rw [Nat.mul_left_comm]
  simp only [costIn]
  omega

end State

/-- A move is paid for by the task that makes it. `a` is whether it may make slots stale. -/
theorem Move.paid (hmove : Move timeout st c r p st') (hlocks : Locks st)
    (htask : st.tasks[c]? = some ⟨r, p⟩) (hn : st.table.mapped.length ≤ n)
    (hahead : ∀ s ∈ p.ahead, s < st.table.slots.length) :
    ∃ a p', st'.tasks[c]? = some ⟨r, p'⟩ ∧
      st'.costIn n c r p' + n * (18 * a) < st.costIn n c r p ∧
      ∀ r' q, (st'.table.isStale r' q).toNat ≤ (st.table.isStale r' q).toNat + a := by
  -- all but a look leave the targets mapped as they are
  have hsame (h : st'.table.mapped = st.table.mapped) (r' : Request) (q : Phase) :
      (st'.table.isStale r' q).toNat ≤ (st.table.isStale r' q).toNat + 0 := by
    rw [Table.isStale_congr h]
    exact Nat.le_refl _
  cases hmove with
  | lockTable hwants hfree =>
    refine ⟨0, p, htask, ?_, hsame rfl⟩
    refine State.costIn_lt_of_line rfl (.inl ⟨hwants, ?_⟩) ?_
    · rw [hfree]
      exact nofun
    · exact State.not_outOfLine_of_wantsTable hwants rfl
  | @lock s hwants hfree =>
    refine ⟨0, p, htask, ?_, hsame rfl⟩
    refine State.costIn_lt_of_line rfl (.inr ⟨s, hwants, ?_⟩) ?_
    · -- nobody waits for a lock that is free
      rintro (hheld | hmem)
      · rw [hfree] at hheld
        cases hheld
      · exact (hlocks.orderly s).held (List.ne_nil_of_mem hmem) hfree
    · refine State.not_outOfLine_of_wants? hwants (.inl ?_)
      have hlt := hahead s (Phase.mem_ahead_of_wants? hwants)
      rw [State.modifySlot_table, Table.slot_modifySlot_self hlt]
  | @queue s d hwants hheld hne hnew =>
    refine ⟨0, p, htask, ?_, hsame rfl⟩
    refine State.costIn_lt_of_line rfl (.inr ⟨s, hwants, ?_⟩) ?_
    · rintro (hholder | hmem)
      · exact hne (Option.some.inj (hheld.symm.trans hholder))
      · exact hnew hmem
    · refine State.not_outOfLine_of_wants? hwants (.inr ?_)
      rw [State.modifySlot_table, Table.slot_modifySlot_self (Table.lt_of_holder hheld)]
      exact List.mem_append_right _ (List.mem_singleton_self c)
  | @look p' st₁ hholder hlook =>
    have hmove : Move timeout st c r p { st₁ with table := { st₁.table with holder := none } } :=
      .look hholder hlook
    refine ⟨p.drops.toNat, p', getElem?_self_of_enter htask hlook.tasks, ?_, hmove.isStale_other⟩
    have hwork := hlook.work hn
    have hstale := toNat_le_of_imp hlook.isStale.2
    refine State.costIn_lt ?_ ?_
    · obtain ⟨hkeep, hdrop⟩ := hlook.mayDrop
      cases hdrops : p.drops with
      | true =>
        obtain ⟨hbefore, hafter⟩ := hdrop hdrops
        rw [hbefore, hafter]
        exact Nat.le_refl 1
      | false => exact toNat_le_of_imp hkeep
    · have hafter : Table.isStale { st₁.table with holder := none } r p' =
          st₁.table.isStale r p' := Table.isStale_congr rfl r p'
      simp only [hafter]
      omega
  | @turn p' _ hturn =>
    refine ⟨0, p', getElem?_self_of_enter htask hturn.tasks, ?_, hsame hturn.mapped⟩
    refine State.costIn_lt ?_ ?_
    · exact toNat_le_of_imp hturn.mayDrop
    · rcases hturn.work (n := n) with hwork | ⟨hwork, hbefore, hafter⟩
      · have hstale := toNat_le_of_imp hturn.isStale.2
        omega
      · -- the round that begins is the one that was due
        rw [hbefore, hafter, hwork, Bool.toNat_true, Bool.toNat_false]
        omega

/-! ## Runs without calls -/

/-- Every step lowers the effort that is left. -/
theorem Reachable.effort_lt (hreach : Reachable st) {answer : Answer}
    (hstep : st.step? timeout c answer = some st') : st'.effort < st.effort := by
  obtain ⟨r, p, htask, hmove⟩ := move_of_step hstep
  obtain ⟨a, p', htask', hself, hstale⟩ := hmove.paid hreach.locks htask
    hreach.length_mapped_le fun s hs => hreach.lt_of_ahead htask hs
  have hlength : st'.tasks.length = st.tasks.length := by
    have hrequests := congrArg List.length (State.requests_of_step hstep)
    rwa [List.length_map, List.length_map] at hrequests
  rw [State.effort, State.effort, hlength]
  -- the task that moves pays for itself and for a further round of each of the others
  refine sum_lt_sum_of_paid (a := 18 * a) (List.getElem?_eq_some_iff.1 htask).1 ?_ fun d hd => ?_
  · rw [State.cost_eq htask, State.cost_eq htask', hlength]
    exact hself
  · have hsame := State.task_of_step hstep hd
    cases hother : st.tasks[d]? with
    | none =>
      rw [State.cost, hsame, hother]
      exact Nat.zero_le _
    | some task =>
      obtain ⟨r', q⟩ := task
      rw [State.cost_eq hother, State.cost_eq (hsame.trans hother), hlength]
      exact hmove.costIn_other hreach.locks htask hd (hstale r' q)

/-- A run without calls has no more steps than the effort it begins with. -/
theorem Reachable.length_add_effort_le (hreach : Reachable st)
    {moves : List (TaskId × Answer)} (hsteps : st.steps? timeout moves = some st') :
    moves.length + st'.effort ≤ st.effort := by
  induction moves generalizing st with
  | nil =>
    cases hsteps
    exact Nat.le_of_eq (Nat.zero_add _)
  | cons move moves ih =>
    obtain ⟨c, answer⟩ := move
    obtain ⟨st₁, hstep, hrest⟩ := Option.bind_eq_some_iff.1 hsteps
    have hlt := hreach.effort_lt hstep
    have hle := ih (hreach.step hstep) hrest
    rw [List.length_cons]
    omega

end ShellQuery.Cache
