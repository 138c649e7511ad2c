/-
  ShellQuery.Proofs.Modifiers

  What the modifiers of a `find` come to, in a list of any length. Each part of the `find` is what
  the last modifier of its method says, and where there is none what it is without modifiers
  (`FindSpec.ofModifiers`). A modifier whose value is of another type is an error, also where a later
  one of its method would override it, and the first such modifier is the one that is reported.
-/
import ShellQuery.Proofs.Positions

namespace ShellQuery

/-! ## Values of modifiers -/

/-- The value of the last modifier of a method. -/
def Modifier.last? (method : Modifier) (modifiers : List ChainedModifier) : Option Value :=
  (modifiers.filter (·.modifier = method)).getLast?.map ChainedModifier.value

/-- Whether the value of a modifier is of the type that its method expects. -/
def ChainedModifier.isWellTyped (m : ChainedModifier) : Bool :=
  match m.modifier with
  | .limit => m.value.integer?.isSome
  | .skip => m.value.integer?.any (0 ≤ ·)
  | .sort | .project => m.value.object?.isSome

/-- The `find` that some modifiers settle. Its limit and its skip are the nearest integers to their
    values that 64 bits with a sign can hold. -/
def FindSpec.ofModifiers (filter projection : Document) (limit : Int64)
    (modifiers : List ChainedModifier) : FindSpec where
  filter
  projection := ((Modifier.project.last? modifiers).bind Value.object?).or
    (if projection = [] then none else some projection)
  sort := (Modifier.sort.last? modifiers).bind Value.object?
  skip := ((Modifier.skip.last? modifiers).bind Value.integer?).map fun n => (clamp n).toNat
  limit := (((Modifier.limit.last? modifiers).bind Value.integer?).map fun n =>
    .ofInt (clamp n)).getD limit

@[simp] theorem Modifier.last?_nil (method : Modifier) : method.last? [] = none := rfl

@[simp] theorem Modifier.last?_append_singleton (method : Modifier)
    (modifiers : List ChainedModifier) (m : ChainedModifier) :
    method.last? (modifiers ++ [m]) =
      if m.modifier = method then some m.value else method.last? modifiers := by
  unfold last?
  split
  · rename_i hm
    simp [List.filter_append, hm]
  · rename_i hm
    simp [List.filter_append, hm]

theorem Modifier.mem_of_last? {method : Modifier} {modifiers : List ChainedModifier} {v : Value}
    (h : method.last? modifiers = some v) :
    ∃ m ∈ modifiers, m.modifier = method ∧ m.value = v := by
  obtain ⟨m, hm, hv⟩ := Option.map_eq_some_iff.1 h
  obtain ⟨hmem, hmethod⟩ := List.mem_filter.1 (List.mem_of_getLast? hm)
  exact ⟨m, hmem, of_decide_eq_true hmethod, hv⟩

/-- The limit of a `find` is read of the last one that is given. -/
theorem FindSpec.toInt_limit_ofModifiers {filter projection : Document} {limit : Int64}
    {modifiers : List ChainedModifier} {n : Int}
    (h : (Modifier.limit.last? modifiers).bind Value.integer? = some n) :
    (ofModifiers filter projection limit modifiers).limit.toInt = clamp n := by
  have hclamp : (Int64.ofInt (clamp n)).toInt = clamp n :=
    Int64.toInt_ofInt_of_le (by simp only [clamp]; omega) (by simp only [clamp]; omega)
  rw [ofModifiers, h]
  exact hclamp

namespace Plan

variable {filter projection : Document} {limit : Int64} {arguments : List Value}
  {modifiers before after : List ChainedModifier} {m : ChainedModifier}

/-! ## One modifier -/

/-- A modifier whose value is of its type is the last one of its method then, and leaves the parts
    that are set by others. -/
theorem modify_of_isWellTyped (hm : m.isWellTyped = true) :
    modify (.ofModifiers filter projection limit before) m =
      .ok (.ofModifiers filter projection limit (before ++ [m])) := by
  obtain ⟨method, v⟩ := m
  cases method with
  | limit =>
    obtain ⟨n, hn⟩ := Option.isSome_iff_exists.1 hm
    simp [modify, FindSpec.ofModifiers, Value.toInt64?_eq_map, hn]
  | skip =>
    obtain ⟨n, hn, hnonneg⟩ : ∃ n, v.integer? = some n ∧ 0 ≤ n := by
      simpa [ChainedModifier.isWellTyped, Option.any_eq_true] using hm
    have hcount := OptionReader.count?_of_integer? hn
    rw [if_pos hnonneg] at hcount
    simp [-Nat.reducePow, modify, FindSpec.ofModifiers, hcount, hn]
  | sort | project =>
    obtain ⟨d, hd⟩ := Option.isSome_iff_exists.1 hm
    cases v <;> cases hd
    simp [modify, FindSpec.ofModifiers, Value.object?]

theorem modify_of_not_isWellTyped (hm : m.isWellTyped = false) (spec : FindSpec) :
    modify spec m = .error (modifierError m) := by
  obtain ⟨method, v⟩ := m
  cases method with
  | limit =>
    have hnone : v.integer? = none := by
      simpa [ChainedModifier.isWellTyped] using hm
    simp [modify, Value.toInt64?_eq_map, hnone]
  | skip =>
    have hcount : OptionReader.count? (2 ^ 64) v = none := by
      cases hn : v.integer? with
      | none => rw [OptionReader.count?_eq, hn, Option.bind_none]
      | some n =>
        have hnegative : ¬ 0 ≤ n := by
          simpa [ChainedModifier.isWellTyped, hn] using hm
        rw [OptionReader.count?_of_integer? hn, if_neg hnegative]
    simp only [modify, hcount]
  | sort | project => cases v <;> first | rfl | cases hm

/-! ## All modifiers -/

/-- After each modifier the `find` is what those so far settle. -/
theorem foldlM_modify (h : ∀ m ∈ modifiers, m.isWellTyped = true) :
    modifiers.foldlM modify (.ofModifiers filter projection limit before) =
      .ok (.ofModifiers filter projection limit (before ++ modifiers)) := by
  induction modifiers generalizing before with
  | nil =>
    rw [List.append_nil]
    rfl
  | cons m modifiers ih =>
    obtain ⟨hm, h⟩ := List.forall_mem_cons.1 h
    rw [List.foldlM_cons, modify_of_isWellTyped hm]
    refine (ih h).trans ?_
    rw [List.append_assoc, List.singleton_append]

theorem findSpec_eq (hfilter : Role.Optional arguments[0]? filter)
    (hprojection : Role.Optional arguments[1]? projection) :
    findSpec arguments modifiers limit =
      modifiers.foldlM modify (.ofModifiers filter projection limit []) := by
  rw [findSpec, ((OperationKind.yields_optionalDocument ..).ok_iff _).2 hfilter,
    ((OperationKind.yields_optionalDocument ..).ok_iff _).2 hprojection]
  simp [FindSpec.ofModifiers, bind, Except.bind]

theorem findSpec_of_wellTyped (hfilter : Role.Optional arguments[0]? filter)
    (hprojection : Role.Optional arguments[1]? projection)
    (h : ∀ m ∈ modifiers, m.isWellTyped = true) :
    findSpec arguments modifiers limit = .ok (.ofModifiers filter projection limit modifiers) := by
  rw [findSpec_eq hfilter hprojection, foldlM_modify h, List.nil_append]

/-- The first modifier whose value is of another type is reported, whatever comes after it. -/
theorem findSpec_of_first (hfilter : Role.Optional arguments[0]? filter)
    (hprojection : Role.Optional arguments[1]? projection)
    (hbefore : ∀ m ∈ before, m.isWellTyped = true) (hm : m.isWellTyped = false) :
    findSpec arguments (before ++ m :: after) limit = .error (modifierError m) := by
  have hrefused (spec : FindSpec) :
      (m :: after).foldlM modify spec = .error (modifierError m) := by
    rw [List.foldlM_cons, modify_of_not_isWellTyped hm]
    rfl
  rw [findSpec_eq hfilter hprojection, List.foldlM_append, foldlM_modify hbefore]
  exact hrefused _

/-- Modifiers are all of their types, or there is a first one that is not. -/
theorem wellTyped_or_first (modifiers : List ChainedModifier) :
    (∀ m ∈ modifiers, m.isWellTyped = true) ∨
      ∃ before m after, modifiers = before ++ m :: after ∧
        (∀ m' ∈ before, m'.isWellTyped = true) ∧ m.isWellTyped = false := by
  cases h : modifiers.find? (!·.isWellTyped) with
  | none =>
    left
    simpa using h
  | some m =>
    obtain ⟨hm, before, after, hsplit, hbefore⟩ := List.find?_eq_some_iff_append.1 h
    exact .inr ⟨before, m, after, hsplit, by simpa using hbefore, by simpa using hm⟩

theorem findSpec_eq_ok_iff {spec : FindSpec} (hfilter : Role.Optional arguments[0]? filter)
    (hprojection : Role.Optional arguments[1]? projection) :
    findSpec arguments modifiers limit = .ok spec ↔
      (∀ m ∈ modifiers, m.isWellTyped = true) ∧
        spec = .ofModifiers filter projection limit modifiers := by
  rcases wellTyped_or_first modifiers with h | ⟨before, m, after, rfl, hbefore, hm⟩
  · rw [findSpec_of_wellTyped hfilter hprojection h, Except.ok.injEq, eq_comm (b := spec),
      and_iff_right h]
  · rw [findSpec_of_first hfilter hprojection hbefore hm]
    refine ⟨nofun, fun h => ?_⟩
    cases (h.1 m (by simp)).symm.trans hm

/-- What becomes of a `find` whose arguments are in order, for every list of modifiers. There is one
    if and only if each modifier has a value of its type, also one that is overridden later; the
    error is otherwise that of the first modifier that has not. Limit, skip, sort and projection are
    each what the last modifier of their method says, or the default limit, none, none and the
    projection among the arguments; a limit and a skip that 64 bits with a sign cannot hold are the
    nearest integers that they can. Modifiers in another order, where those of one method keep
    theirs, come to the same. -/
theorem findSpec_of_modifiers (hfilter : Role.Optional arguments[0]? filter)
    (hprojection : Role.Optional arguments[1]? projection) (modifiers : List ChainedModifier) :
    ((∃ spec, findSpec arguments modifiers limit = .ok spec) ↔
      ∀ m ∈ modifiers, m.isWellTyped = true) ∧
    (∀ e, findSpec arguments modifiers limit = .error e ↔
      ∃ before m after, modifiers = before ++ m :: after ∧
        (∀ m' ∈ before, m'.isWellTyped = true) ∧ m.isWellTyped = false ∧ e = modifierError m) ∧
    (∀ spec, findSpec arguments modifiers limit = .ok spec →
      spec = .ofModifiers filter projection limit modifiers ∧
      (∀ n, (Modifier.limit.last? modifiers).bind Value.integer? = some n →
        -2 ^ 63 ≤ n → n < 2 ^ 63 → spec.limit.toInt = n) ∧
      ∀ n, (Modifier.skip.last? modifiers).bind Value.integer? = some n → n < 2 ^ 63 →
        spec.skip.map Int.ofNat = some n) ∧
    ∀ modifiers' : List ChainedModifier,
      (∀ method, modifiers'.filter (·.modifier = method) = modifiers.filter (·.modifier = method)) →
      ∀ spec, findSpec arguments modifiers' limit = .ok spec ↔
        findSpec arguments modifiers limit = .ok spec := by
  refine ⟨?_, fun e => ⟨fun he => ?_, ?_⟩, fun spec hspec => ?_, fun modifiers' hsame spec => ?_⟩
  · simp only [findSpec_eq_ok_iff hfilter hprojection, exists_and_left, exists_eq, and_true]
  · rcases wellTyped_or_first modifiers with h | ⟨before, m, after, rfl, hbefore, hm⟩
    · cases he.symm.trans (findSpec_of_wellTyped hfilter hprojection h)
    · cases he.symm.trans (findSpec_of_first hfilter hprojection hbefore hm)
      exact ⟨before, m, after, rfl, hbefore, hm, rfl⟩
  · rintro ⟨before, m, after, rfl, hbefore, hm, rfl⟩
    exact findSpec_of_first hfilter hprojection hbefore hm
  · obtain ⟨h, rfl⟩ := (findSpec_eq_ok_iff hfilter hprojection).1 hspec
    refine ⟨rfl, fun n hn hlow hhigh => ?_, fun n hn hhigh => ?_⟩
    · rw [FindSpec.toInt_limit_ofModifiers hn, clamp_of_mem hlow hhigh]
    · -- the last skip is one of the modifiers, so it is no negative number
      obtain ⟨v, hlast, hv⟩ := Option.bind_eq_some_iff.1 hn
      obtain ⟨m, hmem, hmethod, rfl⟩ := Modifier.mem_of_last? hlast
      have hnonneg : 0 ≤ n := by
        have hm := h m hmem
        simpa [ChainedModifier.isWellTyped, hmethod, hv] using hm
      rw [FindSpec.ofModifiers, hn]
      simp only [Option.map_some, clamp_of_mem (by omega) hhigh]
      exact congrArg some (Int.toNat_of_nonneg hnonneg)
  · -- only the last modifier of each method counts, and it is the same in both lists
    have hlast (method : Modifier) : method.last? modifiers' = method.last? modifiers := by
      rw [Modifier.last?, Modifier.last?, hsame]
    have hmem (m : ChainedModifier) : m ∈ modifiers' ↔ m ∈ modifiers := by
      simpa using congrArg (m ∈ ·) (hsame m.modifier)
    simp only [findSpec_eq_ok_iff hfilter hprojection, hmem, FindSpec.ofModifiers, hlast]

/-- Two limits and a skip between two projections, in two orders, and a limit that is a word before
    one that is a number. -/
theorem findSpec_of_modifiers_sample :
    (∃ spec, findSpec [.null, .document [("a", .int32 1)]]
        [⟨.limit, .int32 5⟩, ⟨.skip, .int64 3⟩, ⟨.project, .document []⟩, ⟨.limit, .int32 2⟩] 100 =
          .ok spec ∧
      spec.limit.toInt = 2 ∧ spec.projection = some [] ∧
      findSpec [.null, .document [("a", .int32 1)]]
        [⟨.project, .document []⟩, ⟨.limit, .int32 5⟩, ⟨.limit, .int32 2⟩, ⟨.skip, .int64 3⟩] 100 =
          .ok spec) ∧
    findSpec [.null, .document [("a", .int32 1)]] [⟨.limit, .string "x"⟩, ⟨.limit, .int32 2⟩] 100 =
      .error (modifierError ⟨.limit, .string "x"⟩) := by
  have hfind (modifiers : List ChainedModifier) :=
    @findSpec_of_modifiers [] [("a", .int32 1)] 100 [.null, .document [("a", .int32 1)]] .null
      (.object _) modifiers
  refine ⟨?_, ?_⟩
  · obtain ⟨hok, -, hvalues, hperm⟩ := hfind
      [⟨.limit, .int32 5⟩, ⟨.skip, .int64 3⟩, ⟨.project, .document []⟩, ⟨.limit, .int32 2⟩]
    obtain ⟨spec, hspec⟩ := hok.2 (by decide)
    obtain ⟨hsettled, hlimit, -⟩ := hvalues spec hspec
    have hsame (method : Modifier) :
        ([⟨.project, .document []⟩, ⟨.limit, .int32 5⟩, ⟨.limit, .int32 2⟩, ⟨.skip, .int64 3⟩] :
            List ChainedModifier).filter (·.modifier = method) =
          ([⟨.limit, .int32 5⟩, ⟨.skip, .int64 3⟩, ⟨.project, .document []⟩, ⟨.limit, .int32 2⟩] :
            List ChainedModifier).filter (·.modifier = method) := by
      cases method <;> rfl
    exact ⟨spec, hspec, hlimit 2 rfl (by decide) (by decide), by rw [hsettled]; rfl,
      (hperm _ hsame spec).2 hspec⟩
  · obtain ⟨-, herror, -⟩ := hfind [⟨.limit, .string "x"⟩, ⟨.limit, .int32 2⟩]
    exact (herror _).2 ⟨[], _, _, rfl, by simp, rfl, rfl⟩

end Plan

end ShellQuery
