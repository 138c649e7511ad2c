/-
  ShellQuery.Proofs.Form

  The form of a plan. Every plan of a query is well formed (`Plan.wellFormed_of_ofQuery`): what it
  runs is of the kind that its call names, a command has a path and no modifiers, and an operation on
  a collection has the modifiers that are chained to it and no path.
-/
import ShellQuery.Proofs.Path

namespace ShellQuery

variable {now limit : Int64} {query : List Char} {plan : Plan}

/-! ## Modifiers -/

/-- The calls of a chain that set something of a `find`, each with its first argument or null. -/
def Chain.settings (calls : List ChainedCall) : List (String × Value) :=
  (calls.filter fun call => call.method ∈ ["limit", "skip", "sort", "project"]).map fun call =>
    (call.method, call.arguments.head?.getD .null)

/-- A modifier as it is called. -/
def ChainedModifier.setting (m : ChainedModifier) : String × Value :=
  (m.modifier.name, m.value)

theorem Modifier.ofName?_of_mem {name : String}
    (h : name ∈ ["limit", "skip", "sort", "project"]) :
    ∃ m, Modifier.ofName? name = some m ∧ m.name = name := by
  simp only [List.mem_cons, List.not_mem_nil, or_false] at h
  rcases h with rfl | rfl | rfl | rfl
  · exact ⟨.limit, rfl, rfl⟩
  · exact ⟨.skip, rfl, rfl⟩
  · exact ⟨.sort, rfl, rfl⟩
  · exact ⟨.project, rfl, rfl⟩

theorem Modifier.ofName?_of_not_mem {name : String}
    (h : name ∉ ["limit", "skip", "sort", "project"]) : Modifier.ofName? name = none := by
  simp only [List.mem_cons, List.not_mem_nil, or_false, not_or] at h
  simp [ofName?, Modifier.name, Ne.symm h.1, Ne.symm h.2.1, Ne.symm h.2.2.1, Ne.symm h.2.2.2]

/-- The modifiers of a chain are its settings, in order. -/
theorem Chain.map_setting_modifiers (calls : List ChainedCall) :
    (modifiers calls).map ChainedModifier.setting = settings calls := by
  induction calls with
  | nil => rfl
  | cons call calls ih =>
    unfold modifiers settings at ih ⊢
    by_cases hname : call.method ∈ ["limit", "skip", "sort", "project"]
    · obtain ⟨m, hm, hmethod⟩ := Modifier.ofName?_of_mem hname
      rw [List.filterMap_cons, hm, Option.map_some, List.map_cons, ih,
        List.filter_cons_of_pos (by simpa using hname), List.map_cons]
      rw [ChainedModifier.setting, hmethod]
    · rw [List.filterMap_cons, Modifier.ofName?_of_not_mem hname, Option.map_none, ih,
        List.filter_cons_of_neg (by simpa using hname)]

namespace Plan

/-! ## The default limit -/

theorem limit_modify {spec spec' : FindSpec} {m : ChainedModifier} (hm : m.modifier ≠ .limit)
    (h : modify spec m = .ok spec') : spec'.limit = spec.limit := by
  unfold modify at h
  split at h
  case h_1 hlimit => exact absurd hlimit hm
  case h_2 =>
    split at h <;> cases h
    rfl
  case h_3 | h_4 =>
    cases h
    rfl
  case h_5 => cases h

/-- A `find` whose modifiers set no limit has the default one. -/
theorem limit_findSpec {arguments : List Value} {modifiers : List ChainedModifier} {spec : FindSpec}
    (hmodifiers : ∀ m ∈ modifiers, m.modifier ≠ .limit)
    (h : findSpec arguments modifiers limit = .ok spec) : spec.limit = limit := by
  obtain ⟨filter, -, h⟩ := bind_eq_ok.1 h
  obtain ⟨projection, -, h⟩ := bind_eq_ok.1 h
  refine modifiers_induction (P := fun spec => spec.limit = limit) (fun m hm _ _ hspec hstep => ?_)
    rfl h
  rw [limit_modify (hmodifiers m hm) hstep, hspec]

/-! ## Well-formed plans -/

/-- A plan that is well formed: the plan of a query, with a default limit. -/
structure WellFormed (now limit : Int64) (query : List Char) (plan : Plan) : Prop where
  /-- The call is the one that the query is cut into. -/
  call : Call.ofQuery query = .ok plan.call
  kind : OperationKind.ofCall? plan.call.shape plan.call.method = some plan.operation.kind
  collection : plan.operation.collection? = plan.call.collection
  named : plan.operation.collection? ≠ some ""
  on_collection : plan.operation.collection?.isSome = true ↔ plan.call.shape.isAdmin = false
  /-- A command has no modifiers. The path into its response is the one that is written in the
      remainder, and there is none where no step is written. -/
  command : plan.call.shape.isAdmin = true → plan.modifiers = [] ∧
    ∃ path, Path.Written plan.call.remainder.toList path ∧
      plan.postProcess = if path = [] then none else some path
  /-- An operation on a collection has no path. Its modifiers are those among the calls that are
      written in the remainder. -/
  chained : plan.call.shape.isAdmin = false → plan.postProcess = none ∧
    ∃ links ending calls, List.Forall₂ (Chain.Link.Reads now) links calls ∧
      Chain.isEnd ending = true ∧
      plan.call.remainder.toList = links.flatMap Chain.Link.text ++ ending ∧
      plan.modifiers.map ChainedModifier.setting = Chain.settings calls
  default_limit : plan.defaultLimitApplied = true ↔
    plan.operation.kind = .find ∧ ∀ m ∈ plan.modifiers, m.modifier ≠ .limit
  /-- The default limit is applied to the `find` that is planned. -/
  limited : plan.defaultLimitApplied = true →
    ∃ name spec, plan.operation = .onCollection name (.find spec) ∧ spec.limit = limit

/-- A command is not a `find`, and has no collection. -/
theorem command_not_find (kind : OperationKind) (d : Document) :
    (command kind d).kind ≠ .find ∧ (command kind d).collection? = none := by
  cases kind <;> exact ⟨nofun, rfl⟩

/-- Every plan of a query is well formed. -/
theorem wellFormed_of_ofQuery (h : ofQuery now limit query = .ok plan) :
    plan.WellFormed now limit query := by
  obtain ⟨call, hcall, hplan⟩ := bind_eq_ok.1 h
  obtain ⟨front, closer, tail, hcut⟩ := Call.ofQuery_eq_ok_iff.1 hcall
  -- a call has the name of a collection just if it is not one on the database
  have hadmin_iff : call.shape.isAdmin = true ↔ call.collection = none := by
    rw [hcut.opening.isAdmin_iff, Option.map_eq_none_iff]
  obtain ⟨hsame, hkind, -⟩ := operation_of_ofCall hplan
  cases ofCall_eq_ok_iff.1 hplan with
  | @command kind arguments path d _ _ hadmin hpath _ =>
    obtain ⟨hnot, hnone⟩ := command_not_find kind d
    exact {
      call := hcall
      kind := hkind
      collection := by rw [hnone, hadmin_iff.1 hadmin]
      named := by rw [hnone]; nofun
      on_collection := by rw [hnone, hadmin]; decide
      command := fun _ => ⟨rfl, path, Path.parse_eq_ok_iff.1 hpath, by simp⟩
      chained := fun hadmin' => absurd (hadmin'.symm.trans hadmin) (by decide)
      default_limit := by simp [hnot]
      limited := nofun }
  | @operation kind arguments calls op _ _ hadmin hcalls hop =>
    obtain ⟨links, ending, hlinks, hending, hremainder⟩ := Chain.calls_eq_ok_iff.1 hcalls
    obtain ⟨name, hname⟩ : ∃ name, call.collection = some name := by
      rw [← Option.ne_none_iff_exists', ne_eq, ← hadmin_iff, hadmin]
      decide
    have hop_kind : op.kind = kind := kind_of_collectionOperation hop
    have hcollection : some (call.collection.getD "") = call.collection := by
      rw [hname, Option.getD_some]
    exact {
      call := hcall
      kind := hkind
      collection := hcollection
      named := hcollection ▸ hcut.named
      on_collection := by simp [Operation.collection?, hadmin]
      command := fun hadmin' => absurd (hadmin.symm.trans hadmin') (by decide)
      chained := fun _ => ⟨rfl, links, ending, calls, hlinks, hending, hremainder,
        Chain.map_setting_modifiers calls⟩
      default_limit := by simp [Operation.kind, hop_kind]
      limited := by
        intro hdefault
        simp only [Bool.and_eq_true, decide_eq_true_eq, List.all_eq_true] at hdefault
        obtain ⟨rfl, hmodifiers⟩ := hdefault
        obtain ⟨spec, hspec, hop⟩ := bind_eq_ok.1 hop
        cases hop
        exact ⟨_, spec, rfl, limit_findSpec hmodifiers hspec⟩ }

/-- A `find` with the default limit, and a command with a path. -/
theorem wellFormed_of_ofQuery_sample :
    (∃ plan, ofQuery 0 100 "db.c.find(\x7b\x7d).skip(2).pretty()".toList = .ok plan ∧
      plan.WellFormed 0 100 "db.c.find(\x7b\x7d).skip(2).pretty()".toList) ∧
    ∃ plan, ofQuery 0 100 "db.currentOp(true).inprog[0]".toList = .ok plan ∧
      plan.WellFormed 0 100 "db.currentOp(true).inprog[0]".toList := by
  obtain ⟨plan, hplan⟩ := exists_of_isOk
    (x := ofQuery 0 100 "db.c.find(\x7b\x7d).skip(2).pretty()".toList) (by decide +kernel)
  obtain ⟨plan', hplan'⟩ := exists_of_isOk
    (x := ofQuery 0 100 "db.currentOp(true).inprog[0]".toList) (by decide +kernel)
  exact ⟨⟨plan, hplan, wellFormed_of_ofQuery hplan⟩, plan', hplan', wellFormed_of_ofQuery hplan'⟩

end Plan

end ShellQuery
