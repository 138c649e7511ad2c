/-
  ShellQuery.Proofs.Amounts

  The integers of an operation: limit, skip, batch size, time limit and expiry. An integer that is
  given for one of them, by a modifier of a `find` or among the options of another method, is what
  the plan has, or the call is refused (`Plan.amount_of_ofCall`). The integers beyond the 64 bits
  with a sign are no part of this: where the greatest or the least such integer is in range, the plan
  has that one in their place (`Amount.Slips`).
-/
import Mathlib
import ShellQuery.Proofs.Modifiers

namespace ShellQuery

open OptionReader

/-! ## Numbers -/

/-- The rational number that a double stands for, if it is finite. -/
def Binary64.rational? (x : Binary64) : Option ℚ :=
  if x.isFinite then
    some ((if x.negative then -1 else 1) * (x.significand * 2 ^ x.unit) / 2 ^ 1074)
  else none

/-- The rational number that a value stands for, if it is one. -/
def Value.rational? : Value → Option ℚ
  | .int32 n => some n.toInt
  | .int64 n => some n.toInt
  | .double x => x.rational?
  | _ => none

theorem natCast_div_eq_intCast {s k : ℕ} (hk : 0 < k) {n : ℤ} :
    (s : ℚ) / k = n ↔ s % k = 0 ∧ ((s / k : ℕ) : ℤ) = n := by
  have hk' : (k : ℚ) ≠ 0 := by exact_mod_cast hk.ne'
  rw [div_eq_iff hk']
  constructor
  · intro h
    have hs : (s : ℤ) = n * k := by exact_mod_cast h
    have hdvd : (k : ℤ) ∣ s := hs ▸ Dvd.intro_left n rfl
    refine ⟨Nat.mod_eq_zero_of_dvd (by exact_mod_cast hdvd), ?_⟩
    rw [Int.natCast_div, hs, Int.mul_ediv_cancel n (by exact_mod_cast hk.ne')]
  · rintro ⟨hmod, rfl⟩
    have hs : s / k * k = s := Nat.div_mul_cancel (Nat.dvd_of_mod_eq_zero hmod)
    exact_mod_cast hs.symm

/-- A double is an integer if it has no fractional part, and it is its integer part then. -/
theorem Binary64.rational?_eq_intCast {x : Binary64} {n : ℤ} :
    x.rational? = some (n : ℚ) ↔ x.isIntegral = true ∧ x.truncate = n := by
  have hscaled : ((x.significand : ℚ) * 2 ^ x.unit) = x.scaled := by
    simp [scaled]
  have hunits (e : ℕ) : (2 ^ e : ℚ) = ((2 ^ e : ℕ) : ℚ) := (Nat.cast_pow 2 e).symm
  have hpos : 0 < (2 ^ (1074 : ℕ) : ℕ) := Nat.two_pow_pos 1074
  rw [rational?, hscaled, hunits]
  unfold isIntegral truncate
  generalize (2 ^ (1074 : ℕ) : ℕ) = k at hpos ⊢
  cases x.isFinite with
  | false => simp
  | true =>
    cases x.negative with
    | false => simp [natCast_div_eq_intCast hpos]
    | true =>
      have hneg : -(x.scaled : ℚ) / k = n ↔ (x.scaled : ℚ) / k = (-n : ℤ) := by
        rw [neg_div, Int.cast_neg, neg_eq_iff_eq_neg]
      simp only [if_true, Option.some.injEq, neg_one_mul, hneg, natCast_div_eq_intCast hpos,
        Bool.true_and, decide_eq_true_eq]
      exact and_congr_right fun _ => neg_eq_iff_eq_neg.symm

/-- The integer that a value is read as is the number that it stands for. -/
theorem Value.integer?_eq_some_iff {v : Value} {n : ℤ} :
    v.integer? = some n ↔ v.rational? = some (n : ℚ) := by
  cases v with
  | int32 | int64 => simp [integer?, rational?]
  | double x => simp [integer?, rational?, Binary64.rational?_eq_intCast]
  | _ => simp [integer?, rational?]

/-! ## Amounts -/

/-- What of an operation is an integer. -/
inductive Amount where
  | limit
  | skip
  | batchSize
  | maxTime
  | expiry
deriving DecidableEq

namespace Amount

/-- The key of an amount among the options of a method. -/
def key : Amount → String
  | .limit => "limit"
  | .skip => "skip"
  | .batchSize => "batchSize"
  | .maxTime => "maxTimeMS"
  | .expiry => "expireAfterSeconds"

/-- The modifier that sets an amount of a `find`. -/
def modifier? : Amount → Option Modifier
  | .limit => some .limit
  | .skip => some .skip
  | _ => none

/-- The type of an amount among the options of a method. -/
def option : Amount → OptionType
  | .batchSize => .count32
  | _ => .count

def bound : Amount → ℕ
  | .batchSize => 2 ^ 32
  | _ => 2 ^ 64

/-- The integers that an amount may be: 64 bits with a sign for the limit of a `find`, 32 bits
    without one for a batch size, and 64 bits without one for all others. -/
def Fits (kind : OperationKind) (a : Amount) (n : ℤ) : Prop :=
  if kind = .find ∧ a = .limit then -2 ^ 63 ≤ n ∧ n < 2 ^ 63 else 0 ≤ n ∧ n < a.bound

/-- The integers that 64 bits with a sign cannot hold, and that the nearest one that they can is
    taken for. -/
def Slips (kind : OperationKind) (a : Amount) (n : ℤ) : Prop :=
  a ≠ .batchSize ∧ (2 ^ 63 ≤ n ∨ kind = .find ∧ a = .limit ∧ n < -2 ^ 63)

/-- The values that a call gives for an amount, the last of which counts: those of its modifiers for
    a `find`, and what its options have at the key for any other method. -/
def given (kind : OperationKind) (arguments : List Value) (modifiers : List ChainedModifier)
    (a : Amount) : List Value :=
  if kind = .find then
    (modifiers.filter fun m => a.modifier? = some m.modifier).map ChainedModifier.value
  else
    match kind.optionsAt?.bind fun i => arguments[i]? with
    | some (.document d) => (Document.get? a.key d).toList
    | _ => []

end Amount

/-- An integer that an operation has, if it is set. -/
def CollectionOperation.amount? : CollectionOperation → Amount → Option ℤ
  | .find spec, .limit => some spec.limit.toInt
  | .find spec, .skip => spec.skip.map Int.ofNat
  | .findOne _ options, .skip => options.skip.map Int.ofNat
  | .aggregate _ options, .batchSize => options.batchSize.map Int.ofNat
  | .aggregate _ options, .maxTime => options.maxTimeMs.map Int.ofNat
  | .countDocuments _ options, .limit => options.limit.map Int.ofNat
  | .countDocuments _ options, .skip => options.skip.map Int.ofNat
  | .countDocuments _ options, .maxTime => options.maxTimeMs.map Int.ofNat
  | .createIndex _ options, .expiry => options.expireAfterSeconds.map Int.ofNat
  | _, _ => none

/-- An integer that the operation of a plan has, if it is set. -/
def Plan.amount? (plan : Plan) (a : Amount) : Option ℤ :=
  match plan.operation with
  | .onCollection _ op => op.amount? a
  | _ => none

namespace Amount

variable {kind : OperationKind} {a : Amount} {v : Value} {n : ℤ}

/-- An integer is taken where the nearest one of 64 bits with a sign is in range: it is in range
    itself and is that one, or it slips. -/
theorem fits_clamp_iff :
    a.Fits kind (clamp n) ↔ a.Fits kind n ∧ clamp n = n ∨ a.Slips kind n := by
  by_cases hlimit : kind = .find ∧ a = .limit
  · obtain ⟨rfl, rfl⟩ := hlimit
    simp only [Fits, Slips, clamp, and_self, if_true, ne_eq, reduceCtorEq, not_false_eq_true,
      true_and]
    omega
  · have hslips : a.Slips kind n ↔ a ≠ .batchSize ∧ 2 ^ 63 ≤ n := by
      refine and_congr_right fun _ => or_iff_left fun h => hlimit ⟨h.1, h.2.1⟩
    rw [hslips, Fits, Fits, if_neg hlimit, if_neg hlimit]
    cases a <;> simp only [bound, clamp, ne_eq, reduceCtorEq, not_false_eq_true, not_true_eq_false,
      true_and, false_and, or_false, Nat.cast_pow, Nat.cast_ofNat] <;> omega

/-- A count is read of an integer that is in range or slips. -/
theorem count?_of_fits (hfind : kind ≠ .find) (hn : v.integer? = some n)
    (hfits : a.Fits kind (clamp n)) : (count? a.bound v).map Int.ofNat = some (clamp n) := by
  rw [Fits, if_neg fun h => hfind h.1] at hfits
  have hlt : (clamp n).toNat < a.bound := by omega
  rw [count?_eq, hn, Option.bind_some, if_pos ⟨hfits.1, hlt⟩]
  exact congrArg some (Int.toNat_of_nonneg hfits.1)

/-- An option at the key of an amount is of the type of the amount. -/
theorem eq_of_mem_listed {range : OptionRange} (h : (a.key, range) ∈ kind.listed) :
    range = .typed a.option := by
  have htable : ∀ entry ∈ kind.listed, entry.1 = a.key → entry.2 = .typed a.option := by
    cases kind <;> cases a <;> decide
  exact htable _ h rfl

theorem not_mem_unlisted {range : OptionRange} : (a.key, range) ∉ kind.unlisted := by
  intro h
  cases kind with
  | replaceOne =>
    have hkey : a.key = "arrayFilters" := congrArg Prod.fst (List.mem_singleton.1 h)
    cases a <;> exact absurd hkey (by decide)
  | _ => cases h

theorem includes_option (a : Amount) (v : Value) :
    (OptionRange.typed a.option).includes v = (v.natural? a.bound).isSome := by
  cases a <;> rfl

/-- An entry for an amount that a method takes is an integer in range, or slips. -/
theorem of_admitted (h : kind.Admits (a.key, v) ∨ kind.Slips (a.key, v)) (hv : v ≠ .null) :
    (a.key, .typed a.option) ∈ kind.listed ∧
      ∃ n, v.integer? = some n ∧ a.Fits kind (clamp n) := by
  have hfind {range : OptionRange} (hlisted : (a.key, range) ∈ kind.listed) : kind ≠ .find := by
    rintro rfl
    cases hlisted
  rcases h with ⟨range, hlisted, hnull | hincludes⟩ | ⟨range, hunlisted, -⟩ | ⟨hlisted, n, hn, hle⟩
  · exact absurd hnull hv
  · obtain rfl := eq_of_mem_listed hlisted
    rw [includes_option] at hincludes
    obtain ⟨m, hm⟩ := Option.isSome_iff_exists.1 hincludes
    obtain ⟨n, hn, hnat⟩ := Option.bind_eq_some_iff.1 hm
    obtain ⟨⟨hnonneg, hlt⟩, -⟩ := Option.ite_none_right_eq_some.1 hnat
    refine ⟨hlisted, n, hn, ?_⟩
    rw [Fits, if_neg fun h => hfind hlisted h.1]
    simp only [clamp]
    omega
  · exact absurd hunlisted not_mem_unlisted
  · have htype : a ≠ .batchSize := by
      rintro rfl
      cases eq_of_mem_listed (a := .batchSize) hlisted
    refine ⟨eq_of_mem_listed hlisted ▸ hlisted, n, hn, fits_clamp_iff.2 (.inr ⟨htype, .inl hle⟩)⟩

end Amount

/-- The amount of an operation is the count that its options have at the key. -/
theorem CollectionOperation.amount?_withOptionsBy {op : CollectionOperation} {a : Amount}
    (hlisted : (a.key, .typed a.option) ∈ op.kind.listed) (d : Document) :
    (op.withOptionsBy (count? (2 ^ 64)) d).amount? a =
      ((d.get? a.key).bind (count? a.bound)).map Int.ofNat := by
  have hexact : Value.natural? (2 ^ 32) = count? (2 ^ 32) :=
    funext fun v => (count?_eq_natural? (.inl (by decide))).symm
  -- an amount that the method does not list is refuted, and the others are read off its options
  cases op with
  | findOne | countDocuments | createIndex =>
    cases a <;> first
      | rfl
      | simp [kind, OperationKind.listed, Amount.key, Amount.option] at hlisted
  | aggregate =>
    cases a with
    | batchSize =>
      rw [withOptionsBy, amount?, AggregateSpec.ofOptions, hexact]
      rfl
    | maxTime => rfl
    | _ => simp [kind, OperationKind.listed, Amount.key, Amount.option] at hlisted
  | _ => cases a <;> simp [kind, OperationKind.listed, Amount.key] at hlisted

/-! ## Options -/

/-- A method that plans with some options takes each of their entries, and has what they set. -/
theorem TakesOptions.of_ok {kind : OperationKind} {i : ℕ} {arguments : List Value} {d : Document}
    {op : CollectionOperation} {plan : List Value → Except QueryError CollectionOperation}
    (h : TakesOptions kind i plan) (hd : arguments[i]? = some (.document d))
    (hnodup : d.keys.Nodup) (hop : plan arguments = .ok op) :
    op.kind = kind ∧ (∀ entry ∈ d, kind.Admits entry ∨ kind.Slips entry) ∧
      op.withOptionsBy (count? (2 ^ 64)) d = op := by
  obtain ⟨α, β, reader, taken, value, others, build, hreads, hkeys, htable, hplan, -, hkind,
    hbuild⟩ := h
  rw [hplan] at hop
  obtain ⟨b, -, hop⟩ := bind_eq_ok.1 hop
  obtain ⟨x, hoptions, hop⟩ := bind_eq_ok.1 hop
  cases hop
  have hrun : OptionReader.run kind reader d = .ok x := by
    rw [Plan.options, hd] at hoptions
    exact hoptions
  refine ⟨hkind b x, fun entry hentry => ?_, by rw [hbuild, hreads.run_eq_ok hrun]⟩
  have htaken : ∀ entry ∈ d, Taken taken entry := by
    by_contra hnot
    obtain ⟨_, _, herror, -⟩ := hreads.run_of_not_taken hkeys hnodup kind hnot
    cases hrun.symm.trans herror
  exact (taken_iff htable entry).1 (htaken entry hentry)

namespace Plan

variable {kind : OperationKind} {arguments : List Value} {modifiers : List ChainedModifier}
  {limit : Int64} {op : CollectionOperation} {a : Amount} {v : Value}

/-- An amount among the options of a method that is planned is an integer in range, or slips, and it
    is set. -/
theorem amount_of_options {i : ℕ} {d : Document} (hat : kind.optionsAt? = some i)
    (hd : arguments[i]? = some (.document d)) (hnodup : d.keys.Nodup)
    (hop : collectionOperation kind arguments modifiers limit = .ok op)
    (hget : d.get? a.key = some v) (hv : v ≠ .null) :
    ∃ n, v.integer? = some n ∧ a.Fits kind (clamp n) ∧ op.amount? a = some (clamp n) := by
  obtain ⟨rfl, hentries, hset⟩ := (takesOptions hat).of_ok hd hnodup hop
  obtain ⟨hlisted, n, hn, hfits⟩ :=
    Amount.of_admitted (hentries _ ((Document.get?_eq_some_iff hnodup).1 hget)) hv
  have hfind : op.kind ≠ .find := by
    intro hfind
    rw [hfind] at hat
    cases hat
  refine ⟨n, hn, hfits, ?_⟩
  rw [← hset, CollectionOperation.amount?_withOptionsBy hlisted, hget, Option.bind_some,
    Amount.count?_of_fits hfind hn hfits]

/-! ## Modifiers -/

/-- A `find` that is planned has modifiers that are all well typed, and is what they settle. -/
theorem of_findSpec {spec : FindSpec} (h : findSpec arguments modifiers limit = .ok spec) :
    (∀ m ∈ modifiers, m.isWellTyped = true) ∧
      ∃ filter projection, spec = .ofModifiers filter projection limit modifiers := by
  obtain ⟨filter, hfilter, h'⟩ := bind_eq_ok.1 h
  obtain ⟨projection, hprojection, -⟩ := bind_eq_ok.1 h'
  replace hfilter := ((OperationKind.yields_optionalDocument ..).ok_iff _).1 hfilter
  replace hprojection := ((OperationKind.yields_optionalDocument ..).ok_iff _).1 hprojection
  obtain ⟨hall, hspec⟩ := (findSpec_eq_ok_iff hfilter hprojection).1 h
  exact ⟨hall, filter, projection, hspec⟩

theorem amount_of_modifier {m : ChainedModifier} (hm : m.isWellTyped = true)
    (ha : a.modifier? = some m.modifier) :
    ∃ n, m.value.integer? = some n ∧ a.Fits .find (clamp n) := by
  obtain ⟨method, v⟩ := m
  cases a with
  | limit =>
    cases ha
    obtain ⟨n, hn⟩ := Option.isSome_iff_exists.1 hm
    refine ⟨n, hn, ?_⟩
    rw [Amount.Fits, if_pos ⟨rfl, rfl⟩]
    simp only [clamp]
    omega
  | skip =>
    cases ha
    obtain ⟨n, hn, hnonneg⟩ : ∃ n, v.integer? = some n ∧ 0 ≤ n := by
      simpa [ChainedModifier.isWellTyped, Option.any_eq_true] using hm
    refine ⟨n, hn, ?_⟩
    rw [Amount.Fits, if_neg (by simp)]
    simp only [clamp, Amount.bound]
    omega
  | _ => cases ha

/-- The last modifier of its method sets an amount of a `find`. -/
theorem amount_of_last {filter projection : Document} {method : Modifier} {n : ℤ}
    (ha : a.modifier? = some method) (hlast : method.last? modifiers = some v)
    (hn : v.integer? = some n) (hfits : a.Fits .find (clamp n)) :
    (CollectionOperation.find (.ofModifiers filter projection limit modifiers)).amount? a =
      some (clamp n) := by
  have hread : (method.last? modifiers).bind Value.integer? = some n := by
    rw [hlast, Option.bind_some, hn]
  cases a with
  | limit =>
    cases ha
    exact congrArg some (FindSpec.toInt_limit_ofModifiers hread)
  | skip =>
    cases ha
    rw [Amount.Fits, if_neg (by simp)] at hfits
    rw [CollectionOperation.amount?, FindSpec.ofModifiers, hread]
    exact congrArg some (Int.toNat_of_nonneg hfits.1)
  | _ => cases ha

/-! ## Refusals -/

/-- A reading whose errors are all in the arguments. -/
theorem yields_of_error {α : Type} {x : Except QueryError α}
    (h : ∀ e, x = .error e → ∃ fragment fault, e = .argument fragment fault) :
    Yields x (x = .ok ·) :=
  ⟨fun _ => Iff.rfl, h⟩

theorem yields_run_of_reads {α : Type} {reader : OptionReader α}
    {taken : List (String × OptionRange)} {value : Document → α} (h : Reads reader taken value)
    (d : Document) :
    Yields (OptionReader.run kind reader d) (OptionReader.run kind reader d = .ok ·) := by
  refine yields_of_error fun e he => ?_
  by_cases hfits : d.Fits taken
  · rw [OptionReader.run, h.ok d hfits] at he
    -- a key that is left over is reported, and without one there is no error
    cases hrest : d.without taken with
    | nil =>
      rw [hrest] at he
      cases he
    | cons entry rest =>
      rw [hrest] at he
      cases he
      exact ⟨_, _, rfl⟩
  · obtain ⟨fragment, fault, _, _, _, herror, -⟩ := h.error d hfits
    rw [OptionReader.run, herror] at he
    cases he
    exact ⟨fragment, fault, rfl⟩

/-- Whatever is wrong with the options of a method is an error in the arguments. -/
theorem yields_options_of_reads {α : Type} {reader : OptionReader α}
    {taken : List (String × OptionRange)} {value : Document → α} (h : Reads reader taken value)
    (i : ℕ) (build : α → CollectionOperation) :
    Yields (options kind arguments i reader >>= fun a => pure (build a)) fun op =>
      ∃ a, options kind arguments i reader = .ok a ∧ op = build a := by
  have hrun (d : Document) : Yields (OptionReader.run kind reader d)
      (OptionReader.run kind reader d = .ok ·) := yields_run_of_reads h d
  have hoptions := (kind.yields_optionalDocument arguments[i]? "options").bind fun d _ => hrun d
  exact (yields_of_error hoptions.error).bind fun _ _ => .pure _

theorem yields_modify (spec : FindSpec) (m : ChainedModifier) :
    Yields (modify spec m) (modify spec m = .ok ·) := by
  refine yields_of_error fun e he => ?_
  unfold modify at he
  split at he
  case h_1 | h_2 =>
    split at he <;> cases he
    exact ⟨_, _, rfl⟩
  case h_3 | h_4 => cases he
  case h_5 =>
    cases he
    exact ⟨_, _, rfl⟩

theorem yields_modifiers (spec : FindSpec) :
    Yields (modifiers.foldlM modify spec) (modifiers.foldlM modify spec = .ok ·) := by
  induction modifiers generalizing spec with
  | nil => exact yields_of_error (Yields.pure spec).error
  | cons m modifiers ih =>
    rw [List.foldlM_cons]
    exact yields_of_error ((yields_modify spec m).bind fun spec' _ => ih spec').error

/-- Modifiers count for a `find` only. -/
theorem collectionOperation_of_ne_find (h : kind ≠ .find) :
    collectionOperation kind arguments modifiers limit =
      collectionOperation kind arguments [] limit := by
  cases kind with
  | find => exact absurd rfl h
  | _ => simp only [collectionOperation]

/-- Whatever is wrong with the arguments and the modifiers of a method of a collection is an error
    in the arguments. -/
theorem argument_of_collectionOperation (hkind : kind ∈ OperationKind.collectionMethods) :
    ∀ e, collectionOperation kind arguments modifiers limit = .error e →
      ∃ fragment fault, e = .argument fragment fault := by
  -- what each method reads, in the order of the positions
  cases kind with
  | find =>
    have hspec : Yields (findSpec arguments modifiers limit)
        (findSpec arguments modifiers limit = .ok ·) :=
      yields_of_error ((OperationKind.yields_optionalDocument ..).bind fun _ _ =>
        (OperationKind.yields_optionalDocument ..).bind fun _ _ => yields_modifiers _).error
    exact (hspec.bind fun _ _ => .pure _).error
  | findOne =>
    exact ((OperationKind.yields_optionalDocument ..).bind fun _ _ =>
      yields_options_of_reads (.findOneSpec _) 1 _).error
  | aggregate =>
    exact ((OperationKind.yields_documentArray ..).bind fun _ _ =>
      yields_options_of_reads (.aggregateSpec _) 1 _).error
  | countDocuments =>
    exact ((OperationKind.yields_optionalDocument ..).bind fun _ _ =>
      yields_options_of_reads (.countSpec _) 1 _).error
  | deleteOne | deleteMany =>
    exact ((OperationKind.yields_optionalDocument ..).bind fun _ _ =>
      yields_options_of_reads (.deleteSpec _) 1 _).error
  | findOneAndDelete =>
    exact ((OperationKind.yields_optionalDocument ..).bind fun _ _ =>
      yields_options_of_reads (.findOneAndDeleteSpec _) 1 _).error
  | updateOne | updateMany =>
    exact ((OperationKind.yields_optionalDocument ..).bind fun _ _ =>
      (OperationKind.yields_update ..).bind fun _ _ =>
        yields_options_of_reads (.updateSpec _) 2 _).error
  | findOneAndUpdate =>
    exact ((OperationKind.yields_optionalDocument ..).bind fun _ _ =>
      (OperationKind.yields_update ..).bind fun _ _ =>
        yields_options_of_reads (.findOneAndUpdateSpec _) 2 _).error
  | replaceOne =>
    exact ((OperationKind.yields_optionalDocument ..).bind fun _ _ =>
      (OperationKind.yields_requiredDocument ..).bind fun _ _ =>
        yields_options_of_reads (.updateSpec _) 2 _).error
  | findOneAndReplace =>
    exact ((OperationKind.yields_optionalDocument ..).bind fun _ _ =>
      (OperationKind.yields_requiredDocument ..).bind fun _ _ =>
        yields_options_of_reads (.findOneAndReplaceSpec _) 2 _).error
  | createIndex =>
    refine ((OperationKind.yields_requiredDocument ..).bind
      (Q := fun keys op => keys ≠ [] ∧ ∃ spec,
        options .createIndex arguments 1 (indexSpec .createIndex) = .ok spec ∧
          op = .createIndex keys spec) fun keys _ => ?_).error
    cases keys with
    | nil => exact .of_none fun _ h => h.1 rfl
    | cons field fields =>
      refine (yields_options_of_reads (.indexSpec _) 1 _).congr fun op => ?_
      exact (and_iff_right (List.cons_ne_nil _ _)).symm
  | insertOne => exact ((OperationKind.yields_requiredDocument ..).bind fun _ _ => .pure _).error
  | insertMany =>
    rw [collectionOperation_of_ne_find (by decide)]
    exact yields_insertMany.error
  | distinct =>
    rw [collectionOperation_of_ne_find (by decide)]
    exact yields_distinct.error
  | dropIndex =>
    rw [collectionOperation_of_ne_find (by decide)]
    exact yields_dropIndex.error
  | estimatedDocumentCount | indexes | stats =>
    intro e he
    cases he
  | runCommand | adminCommand | currentOp => exact absurd hkind (by decide)

/-! ## Calls -/

variable {now : Int64} {call : Call} {calls : List ChainedCall}

/-- The last value that is given for an amount of a `find` is that of the last modifier. -/
theorem last?_of_given {method : Modifier} (ha : a.modifier? = some method)
    (hlast : (a.given .find arguments modifiers).getLast? = some v) :
    method.last? modifiers = some v := by
  have hsame (m : ChainedModifier) :
      decide (a.modifier? = some m.modifier) = decide (m.modifier = method) := by
    simp only [ha, Option.some.injEq, eq_comm]
  rw [Amount.given, if_pos rfl, List.getLast?_map] at hlast
  simpa only [Modifier.last?, hsame] using hlast

/-- Each value that is given for an amount is an integer that is in range or slips if the method is
    planned, and the last one is set. -/
theorem amount_of_given (hop : collectionOperation kind arguments modifiers limit = .ok op)
    (hnodup : ∀ d : Document, .document d ∈ arguments → d.keys.Nodup)
    (hgiven : v ∈ a.given kind arguments modifiers) (hv : v ≠ .null) :
    ∃ n, v.integer? = some n ∧ a.Fits kind (clamp n) ∧
      ((a.given kind arguments modifiers).getLast? = some v → op.amount? a = some (clamp n)) := by
  by_cases hfind : kind = .find
  · subst hfind
    obtain ⟨spec, hspec, hop⟩ := bind_eq_ok.1 hop
    cases hop
    obtain ⟨hall, filter, projection, rfl⟩ := of_findSpec hspec
    have hmem := hgiven
    rw [Amount.given, if_pos rfl] at hmem
    obtain ⟨m, hm, rfl⟩ := List.mem_map.1 hmem
    obtain ⟨hm, ha⟩ := List.mem_filter.1 hm
    replace ha := of_decide_eq_true ha
    obtain ⟨n, hn, hfits⟩ := amount_of_modifier (hall m hm) ha
    exact ⟨n, hn, hfits, fun hlast => amount_of_last ha (last?_of_given ha hlast) hn hfits⟩
  · have hmem := hgiven
    rw [Amount.given, if_neg hfind] at hmem
    split at hmem
    · rename_i d hd
      obtain ⟨i, hat, hd⟩ := Option.bind_eq_some_iff.1 hd
      obtain ⟨n, hn, hfits, hset⟩ := amount_of_options hat hd (hnodup d (List.mem_of_getElem? hd)) hop
        (Option.mem_toList.1 hmem) hv
      exact ⟨n, hn, hfits, fun _ => hset⟩
    · cases hmem

/-- A method with something given for an amount is one of a collection. -/
theorem mem_collectionMethods_of_given (hgiven : v ∈ a.given kind arguments modifiers) :
    kind ∈ OperationKind.collectionMethods := by
  cases kind with
  | runCommand | adminCommand | currentOp => cases hgiven
  | _ => decide

theorem isAdmin_of_mem_collectionMethods
    (hkind : OperationKind.ofCall? call.shape call.method = some kind)
    (hmethod : kind ∈ OperationKind.collectionMethods) : call.shape.isAdmin = false := by
  cases hshape : call.shape with
  | collection | getCollection => rfl
  | runCommand | adminCommand | currentOp =>
    rw [hshape] at hkind
    cases hkind
    revert hmethod
    decide

/-- What becomes of the integers that a call is given. A value that is no integer, or one out of
    range, is an error in the arguments, also where a later modifier overrides it. In a call that is
    planned each amount is exactly the number that is given for it. Left out are the integers that
    slip: a call that is planned with one of them has the nearest one that 64 bits with a sign can
    hold. -/
theorem amount_of_ofCall (hkind : OperationKind.ofCall? call.shape call.method = some kind)
    (harguments : parseShellArguments now call.arguments.toList = .ok arguments)
    (hchain : Chain.calls now call.remainder.toList = .ok calls) (a : Amount)
    (hgiven : v ∈ a.given kind arguments (Chain.modifiers calls)) (hv : v ≠ .null) :
    ((∀ n : ℤ, v.rational? = some (n : ℚ) → ¬ a.Fits kind n ∧ ¬ a.Slips kind n) →
      ∃ fragment fault, ofCall now limit call = .error (.argument fragment fault)) ∧
    ∀ plan, ofCall now limit call = .ok plan →
      (a.given kind arguments (Chain.modifiers calls)).getLast? = some v →
        ∃ n : ℤ, v.rational? = some (n : ℚ) ∧
          (¬ a.Slips kind n → a.Fits kind n ∧ plan.amount? a = some n) ∧
          (a.Slips kind n → plan.amount? a = some (clamp n)) := by
  have hmethod := mem_collectionMethods_of_given hgiven
  have hcall : ofCall now limit call = _ :=
    ofCall_of_calls hkind (isAdmin_of_mem_collectionMethods hkind hmethod) harguments hchain
  have hnodup (d : Document) (hd : Value.document d ∈ arguments) : d.keys.Nodup :=
    keys_nodup_of_parseShellArguments harguments hd
  rw [hcall]
  cases hop : collectionOperation kind arguments (Chain.modifiers calls) limit with
  | error e =>
    -- every error of the arguments is of this kind, and then no plan is made
    obtain ⟨fragment, fault, rfl⟩ := argument_of_collectionOperation hmethod e hop
    refine ⟨fun _ => ⟨fragment, fault, rfl⟩, fun plan hplan => ?_⟩
    cases hplan
  | ok op =>
    -- a plan was made, so the amount was read: it fits, or it slipped through and was clamped
    obtain ⟨n, hn, hfits, hset⟩ := amount_of_given hop hnodup hgiven hv
    rw [Value.integer?_eq_some_iff] at hn
    rw [Amount.fits_clamp_iff] at hfits
    refine ⟨fun hnone => ?_, ?_⟩
    · obtain ⟨hfits', hslips⟩ := hnone n hn
      rcases hfits with hfits | hfits
      · exact absurd hfits.1 hfits'
      · exact absurd hfits hslips
    · intro plan hplan hlast
      have hamount : plan.amount? a = some (clamp n) := by
        cases hplan
        exact hset hlast
      refine ⟨n, hn, fun hslips => ?_, fun _ => hamount⟩
      obtain ⟨hfits, hsame⟩ := hfits.resolve_right hslips
      rw [hsame] at hamount
      exact ⟨hfits, hamount⟩

/-- A `find` with two limits, the last of them negative. -/
def samplePages : Call where
  shape := .collection
  collection := some "c"
  method := "find"
  arguments := ""
  remainder := ".limit(2).limit(-3)"

/-- The same `find` with a skip that is no number before one that is. -/
def sampleSkips : Call :=
  { samplePages with remainder := ".skip(NaN).skip(2)" }

/-- An aggregation with a batch size of one more than 32 bits can hold. -/
def sampleBatch : Call where
  shape := .collection
  collection := some "c"
  method := "aggregate"
  arguments := "[], \x7bbatchSize: 4294967296\x7d"
  remainder := ""

theorem calls_samplePages : Chain.calls 0 samplePages.remainder.toList =
    .ok [⟨"limit", [.int32 2]⟩, ⟨"limit", [.int32 (-3)]⟩] := by
  cbv

theorem calls_sampleSkips : Chain.calls 0 sampleSkips.remainder.toList =
    .ok [⟨"skip", [.double .nan]⟩, ⟨"skip", [.int32 2]⟩] := by
  cbv

theorem parse_sampleBatch : parseShellArguments 0 sampleBatch.arguments.toList =
    .ok [.array [], .document [("batchSize", .int64 4294967296)]] := by
  cbv

/-- The last limit is set; the skip that is no number is refused though another one comes after it,
    and so is the batch size. -/
theorem amount_of_ofCall_sample :
    (∃ plan, ofCall 0 100 samplePages = .ok plan ∧ plan.amount? .limit = some (-3)) ∧
    (∃ fragment fault, ofCall 0 100 sampleSkips = .error (.argument fragment fault)) ∧
    ∃ fragment fault, ofCall 0 100 sampleBatch = .error (.argument fragment fault) := by
  have hnone : parseShellArguments 0 "".toList = .ok [] := by cbv
  refine ⟨?_, ?_, ?_⟩
  · obtain ⟨plan, hplan⟩ := exists_of_isOk (x := ofCall 0 100 samplePages) (by decide +kernel)
    obtain ⟨-, hset⟩ := @amount_of_ofCall .find [] 100 (.int32 (-3)) 0 samplePages _ (by decide)
      hnone calls_samplePages .limit (.tail _ (.head _)) (by simp)
    obtain ⟨n, hn, hexact, -⟩ := hset plan hplan rfl
    obtain rfl : n = -3 := by
      rw [← Value.integer?_eq_some_iff] at hn
      exact (Option.some.inj hn).symm
    have hslips : ¬ Amount.Slips .find .limit (-3) := by
      simp [Amount.Slips]
    exact ⟨plan, hplan, (hexact hslips).2⟩
  · obtain ⟨hrefused, -⟩ := @amount_of_ofCall .find [] 100 (.double .nan) 0 sampleSkips _ (by decide)
      hnone calls_sampleSkips .skip (.head _) (by simp)
    refine hrefused fun n hn => ?_
    rw [← Value.integer?_eq_some_iff] at hn
    cases hn
  · obtain ⟨hrefused, -⟩ := @amount_of_ofCall .aggregate _ 100 (.int64 4294967296) 0 sampleBatch []
      (by decide) parse_sampleBatch rfl .batchSize (.head _) (by simp)
    refine hrefused fun n hn => ?_
    obtain rfl : n = 4294967296 := by
      rw [← Value.integer?_eq_some_iff] at hn
      exact (Option.some.inj hn).symm
    simp [Amount.Fits, Amount.Slips, Amount.bound]

end Plan

end ShellQuery
