/-
  ShellQuery.Proofs.Options.Planning

  The options of a planned call.
-/
import Mathlib
import ShellQuery.Proofs.Options.Reading

namespace ShellQuery

open OptionReader

/-! ## Entries -/

/-- No option that is read without being listed is a count. -/
theorem OperationKind.not_count_of_unlisted {kind : OperationKind} {key : String}
    {range : OptionRange} (h : (key, range) ∈ kind.unlisted) : range ≠ .typed .count := by
  cases kind <;> simp [unlisted] at h
  simp [h.2]

/-- The entries that are taken of a method's options are those of its table and those that slip. -/
theorem taken_iff {kind : OperationKind} {taken : List (String × OptionRange)}
    (htable : taken.Perm (kind.listed ++ kind.unlisted)) (entry : String × Value) :
    Taken taken entry ↔ kind.Admits entry ∨ kind.Slips entry := by
  simp only [Taken, htable.mem_iff, List.mem_append]
  constructor
  · rintro ⟨range, hlisted | hunlisted, hv⟩
    · rcases hv with hnull | hincludes | ⟨rfl, hgreat⟩
      · exact .inl ⟨range, hlisted, .inl hnull⟩
      · exact .inl ⟨range, hlisted, .inr hincludes⟩
      · exact .inr (.inr ⟨hlisted, hgreat⟩)
    · refine .inr (.inl ⟨range, hunlisted, hv.imp_right fun htakes => ?_⟩)
      exact htakes.resolve_right fun h => OperationKind.not_count_of_unlisted hunlisted h.1
  · rintro (⟨range, hlisted, hv⟩ | ⟨range, hunlisted, hv⟩ | ⟨hlisted, hgreat⟩)
    · exact ⟨range, .inl hlisted, hv.imp_right .inl⟩
    · exact ⟨range, .inr hunlisted, hv.imp_right .inl⟩
    · exact ⟨_, .inl hlisted, .inr (.inr ⟨rfl, hgreat⟩)⟩

/-! ## Methods -/

/-- How a method plans its arguments: it reads the others first and then its options, with one
    reader, which takes the entries of the table and those that slip; what it reads is set in the
    operation. -/
def TakesOptions (kind : OperationKind) (i : Nat)
    (plan : List Value → Except QueryError CollectionOperation) : Prop :=
  ∃ (α β : Type) (reader : OptionReader α) (taken : List (String × OptionRange))
    (value : Document → α) (others : List Value → Except QueryError β)
    (build : β → α → CollectionOperation),
    Reads reader taken value ∧ (taken.map Prod.fst).Nodup ∧
      taken.Perm (kind.listed ++ kind.unlisted) ∧
      (∀ arguments, plan arguments = others arguments >>= fun b =>
        Plan.options kind arguments i reader >>= fun a => pure (build b a)) ∧
      (∀ arguments v, others (arguments.set i v) = others arguments) ∧
      (∀ b a, (build b a).kind = kind) ∧
      ∀ b a d, (build b a).withOptionsBy (count? (2 ^ 64)) d = build b (value d)

section
variable {kind : OperationKind} {i : Nat} {modifiers : List ChainedModifier} {defaultLimit : Int64}
  {plan : List Value → Except QueryError CollectionOperation}

/-- A method whose options come after one other argument. -/
theorem TakesOptions.of_first {α β : Type} {reader : OptionReader α}
    {taken : List (String × OptionRange)} {value : Document → α}
    (first : Option Value → Except QueryError β) (build : β → α → CollectionOperation)
    (hreads : Reads reader taken value) (hkeys : (taken.map Prod.fst).Nodup)
    (htable : taken.Perm (kind.listed ++ kind.unlisted))
    (hplan : ∀ arguments, plan arguments = first arguments[0]? >>= fun b =>
      Plan.options kind arguments 1 reader >>= fun a => pure (build b a))
    (hkind : ∀ b a, (build b a).kind = kind)
    (hbuild : ∀ b a d, (build b a).withOptionsBy (count? (2 ^ 64)) d = build b (value d)) :
    TakesOptions kind 1 plan := by
  refine ⟨α, β, reader, taken, value, fun arguments => first arguments[0]?, build, hreads, hkeys,
    htable, hplan, fun arguments v => ?_, hkind, hbuild⟩
  dsimp only
  rw [List.getElem?_set_ne (by decide)]

/-- A method whose options come after two other arguments. -/
theorem TakesOptions.of_second {α β γ : Type} {reader : OptionReader α}
    {taken : List (String × OptionRange)} {value : Document → α}
    (first : Option Value → Except QueryError β) (second : Option Value → Except QueryError γ)
    (build : β → γ → α → CollectionOperation) (hreads : Reads reader taken value)
    (hkeys : (taken.map Prod.fst).Nodup) (htable : taken.Perm (kind.listed ++ kind.unlisted))
    (hplan : ∀ arguments, plan arguments = first arguments[0]? >>= fun b =>
      second arguments[1]? >>= fun c =>
        Plan.options kind arguments 2 reader >>= fun a => pure (build b c a))
    (hkind : ∀ b c a, (build b c a).kind = kind)
    (hbuild : ∀ b c a d, (build b c a).withOptionsBy (count? (2 ^ 64)) d = build b c (value d)) :
    TakesOptions kind 2 plan := by
  refine ⟨α, β × γ, reader, taken, value,
    fun arguments => first arguments[0]? >>= fun b => second arguments[1]? >>= fun c => pure (b, c),
    fun others => build others.1 others.2, hreads, hkeys, htable, fun arguments => ?_,
    fun arguments v => ?_, fun others => hkind others.1 others.2,
    fun others => hbuild others.1 others.2⟩
  · simp only [hplan, bind_assoc, pure_bind]
  · dsimp only
    rw [List.getElem?_set_ne (by decide), List.getElem?_set_ne (by decide)]

/-- A method that plans with no options plans with those of any object that its reader reads, and
    sets them. -/
theorem TakesOptions.of_set {op : CollectionOperation} {arguments : List Value}
    (h : TakesOptions kind i plan) (hi : i < arguments.length)
    (hop : plan (arguments.set i (.document [])) = .ok op) :
    ∃ (α : Type) (reader : OptionReader α) (taken : List (String × OptionRange))
      (value : Document → α) (build : α → CollectionOperation),
      op.kind = kind ∧ Reads reader taken value ∧ (taken.map Prod.fst).Nodup ∧
        taken.Perm (kind.listed ++ kind.unlisted) ∧
        (∀ d, plan (arguments.set i (.document d)) =
          OptionReader.run kind reader d >>= fun a => pure (build a)) ∧
        ∀ d, build (value d) = op.withOptionsBy (count? (2 ^ 64)) d := by
  obtain ⟨α, β, reader, taken, value, others, build, hreads, hkeys, htable, hplan, hothers, hkind,
    hbuild⟩ := h
  have hoptions (d : Document) :
      Plan.options kind (arguments.set i (.document d)) i reader =
        OptionReader.run kind reader d := by
    rw [Plan.options, List.getElem?_set_self hi]
    rfl
  rw [hplan, hothers] at hop
  obtain ⟨b, hb, hop⟩ := bind_eq_ok.1 hop
  obtain ⟨a, -, hop⟩ := bind_eq_ok.1 hop
  cases hop
  refine ⟨α, reader, taken, value, build b, hkind b a, hreads, hkeys, htable, fun d => ?_,
    fun d => (hbuild b a d).symm⟩
  rw [hplan, hothers, hb, hoptions]
  rfl

/-- Every method with an options argument takes its options. -/
theorem takesOptions (hat : kind.optionsAt? = some i) :
    TakesOptions kind i fun arguments =>
      Plan.collectionOperation kind arguments modifiers defaultLimit := by
  -- the options come behind one argument or behind two: the methods differ in what they read there
  cases kind with
  | findOne =>
    cases hat
    exact .of_first (OperationKind.findOne.optionalDocument · "filter") .findOne
      (.findOneSpec .findOne) (by decide) (by decide) (fun _ => rfl) (fun _ _ => rfl)
      fun _ _ _ => rfl
  | aggregate =>
    cases hat
    exact .of_first (OperationKind.aggregate.documentArray · "pipeline")
      (fun pipeline => .aggregate (pipeline.getD [])) (.aggregateSpec .aggregate) (by decide)
      (by decide) (fun _ => rfl) (fun _ _ => rfl) fun _ _ _ => rfl
  | countDocuments =>
    cases hat
    exact .of_first (OperationKind.countDocuments.optionalDocument · "filter") .countDocuments
      (.countSpec .countDocuments) (by decide) (by decide) (fun _ => rfl) (fun _ _ => rfl)
      fun _ _ _ => rfl
  | updateOne =>
    cases hat
    exact .of_second (OperationKind.updateOne.optionalDocument · "filter")
      OperationKind.updateOne.update .updateOne (.updateSpec .updateOne) (by decide) (by decide)
      (fun _ => rfl) (fun _ _ _ => rfl) fun _ _ _ _ => rfl
  | updateMany =>
    cases hat
    exact .of_second (OperationKind.updateMany.optionalDocument · "filter")
      OperationKind.updateMany.update .updateMany (.updateSpec .updateMany) (by decide) (by decide)
      (fun _ => rfl) (fun _ _ _ => rfl) fun _ _ _ _ => rfl
  | replaceOne =>
    cases hat
    exact .of_second (OperationKind.replaceOne.optionalDocument · "filter")
      (OperationKind.replaceOne.requiredDocument · .replacement) .replaceOne
      (.updateSpec .replaceOne) (by decide) (by decide) (fun _ => rfl) (fun _ _ _ => rfl)
      fun _ _ _ _ => rfl
  | deleteOne =>
    cases hat
    exact .of_first (OperationKind.deleteOne.optionalDocument · "filter") .deleteOne
      (.deleteSpec .deleteOne) (by decide) (by decide) (fun _ => rfl) (fun _ _ => rfl)
      fun _ _ _ => rfl
  | deleteMany =>
    cases hat
    exact .of_first (OperationKind.deleteMany.optionalDocument · "filter") .deleteMany
      (.deleteSpec .deleteMany) (by decide) (by decide) (fun _ => rfl) (fun _ _ => rfl)
      fun _ _ _ => rfl
  | findOneAndUpdate =>
    cases hat
    exact .of_second (OperationKind.findOneAndUpdate.optionalDocument · "filter")
      OperationKind.findOneAndUpdate.update .findOneAndUpdate
      (.findOneAndUpdateSpec .findOneAndUpdate) (by decide) (by decide) (fun _ => rfl)
      (fun _ _ _ => rfl) fun _ _ _ _ => rfl
  | findOneAndDelete =>
    cases hat
    exact .of_first (OperationKind.findOneAndDelete.optionalDocument · "filter") .findOneAndDelete
      (.findOneAndDeleteSpec .findOneAndDelete) (by decide) (by decide) (fun _ => rfl)
      (fun _ _ => rfl) fun _ _ _ => rfl
  | findOneAndReplace =>
    cases hat
    exact .of_second (OperationKind.findOneAndReplace.optionalDocument · "filter")
      (OperationKind.findOneAndReplace.requiredDocument · .replacement) .findOneAndReplace
      (.findOneAndReplaceSpec .findOneAndReplace) (by decide) (by decide) (fun _ => rfl)
      (fun _ _ _ => rfl) fun _ _ _ _ => rfl
  | createIndex =>
    cases hat
    -- the keys have one test more than the first arguments of the other methods
    refine .of_first
      (fun argument => do
        let keys ← OperationKind.createIndex.requiredDocument argument .indexKeys
        if keys.isEmpty then throw (OperationKind.createIndex.missing .oneIndexKey)
        return keys)
      .createIndex (.indexSpec .createIndex) (by decide) (by decide) (fun arguments => ?_)
      (fun _ _ => rfl) fun _ _ _ => rfl
    simp only [Plan.collectionOperation, bind_assoc]
    refine bind_congr fun keys => ?_
    split <;> rfl
  | _ => cases hat

end

/-! ## Documents that are read -/

namespace Grammar

variable {now : Int64} {cs : List Char}

theorem Scalar.ne_document {v : Value} (h : Scalar now cs v) (d : Document) : v ≠ .document d := by
  rintro rfl
  cases h with
  | regex h => cases h
  | number h =>
    generalize hv : Value.document d = v at h
    cases h with
    | integer =>
      simp only [integerValue] at hv
      split at hv
      · cases hv
      · split at hv <;> cases hv
    | double => cases hv
    | infinity => cases hv
  | keyword h => simp [keywords] at h
  | date h => cases h

/-- The keys of an object are distinct. -/
theorem Literal.keys_nodup {d : Document} (h : Literal now cs (.document d)) : d.keys.Nodup := by
  have hempty : Document.keys [] = [] := rfl
  cases h with
  | scalar h => exact absurd rfl (h.ne_document d)
  | object hfields hsettles =>
    exact hsettles.eq_merge ▸ Document.nodup_merge (hempty ▸ List.nodup_nil) _

theorem Items.literal_of_mem {cs : List Char} {vs : List Value} (h : Items now cs vs) :
    ∀ v ∈ vs, ∃ text, Literal now text v := by
  match h with
  | .one _ hv _ =>
    intro v hmem
    cases List.mem_singleton.1 hmem
    exact ⟨_, hv⟩
  | .more _ hv _ hrest =>
    intro v hmem
    rcases List.mem_cons.1 hmem with rfl | hmem
    · exact ⟨_, hv⟩
    · exact hrest.literal_of_mem v hmem

end Grammar

/-- The keys of an object among the arguments of a call are distinct. -/
theorem keys_nodup_of_parseShellArguments {now : Int64} {cs : List Char} {vs : List Value}
    {d : Document} (h : parseShellArguments now cs = .ok vs) (hmem : .document d ∈ vs) :
    d.keys.Nodup := by
  obtain ⟨ws, rfl, harguments⟩ := Grammar.Arguments.of_read h
  generalize Wrapper.normalize cs = text at harguments
  cases harguments with
  | empty => cases hmem
  | items hitems =>
    obtain ⟨text, hliteral⟩ := hitems.literal_of_mem _ hmem
    exact hliteral.keys_nodup

/-! ## Plans -/

/-- Counts that do not slip are exact. -/
theorem Document.bind_count?_eq {kind : OperationKind} {d : Document} {key : String}
    (hnodup : d.keys.Nodup) (hd : ∀ entry ∈ d, ¬ kind.Slips entry)
    (hlisted : (key, .typed .count) ∈ kind.listed) :
    (d.get? key).bind (count? (2 ^ 64)) = (d.get? key).bind (Value.natural? (2 ^ 64)) := by
  cases hget : d.get? key with
  | none => rfl
  | some v =>
    refine count?_eq_natural? (.inr fun n hn => Int.not_le.1 fun hle => ?_)
    exact hd _ ((get?_eq_some_iff hnodup).1 hget) (.inr ⟨hlisted, n, hn, hle⟩)

/-- Options that do not slip are set as they are. -/
theorem CollectionOperation.withOptionsBy_eq {op : CollectionOperation} {d : Document}
    (hnodup : d.keys.Nodup) (hd : ∀ entry ∈ d, ¬ op.kind.Slips entry) :
    op.withOptionsBy (count? (2 ^ 64)) d = op.withOptions d := by
  have hcount (key : String) (hlisted : (key, .typed .count) ∈ op.kind.listed) :
      (d.get? key).bind (count? (2 ^ 64)) = (d.get? key).bind (Value.natural? (2 ^ 64)) :=
    Document.bind_count?_eq hnodup hd hlisted
  cases op with
  | findOne =>
    simp only [kind, OperationKind.listed] at hcount
    simp only [withOptions, withOptionsBy, FindOneSpec.ofOptions, hcount "skip" (by simp)]
  | aggregate =>
    simp only [kind, OperationKind.listed] at hcount
    simp only [withOptions, withOptionsBy, AggregateSpec.ofOptions, hcount "maxTimeMS" (by simp)]
  | countDocuments =>
    simp only [kind, OperationKind.listed] at hcount
    simp only [withOptions, withOptionsBy, CountSpec.ofOptions, hcount "limit" (by simp),
      hcount "skip" (by simp), hcount "maxTimeMS" (by simp)]
  | createIndex =>
    simp only [kind, OperationKind.listed] at hcount
    simp only [withOptions, withOptionsBy, IndexSpec.ofOptions,
      hcount "expireAfterSeconds" (by simp)]
  | _ => rfl

/-- The options that an object sets do not depend on the order of its keys. -/
theorem CollectionOperation.withOptions_perm {d d' : Document} (op : CollectionOperation)
    (hnodup : d.keys.Nodup) (hperm : d'.Perm d) : op.withOptions d' = op.withOptions d := by
  have hget := Document.get?_perm hnodup hperm
  cases op <;>
    simp only [withOptions, withOptionsBy, FindOneSpec.ofOptions, AggregateSpec.ofOptions,
      CountSpec.ofOptions, WriteSpec.ofOptions, WriteSpec.ofDeletion, FindAndModifySpec.ofOptions,
      FindAndModifySpec.ofDeletion, IndexSpec.ofOptions, Document.returnsAfter, hget]

namespace Plan

variable {now defaultLimit : Int64} {call : Call} {kind : OperationKind} {i : Nat}
  {arguments : List Value} {calls : List ChainedCall}

/-- A call on a collection is planned as the operation of the collection, as it is. -/
theorem ofCall_of_calls (hkind : OperationKind.ofCall? call.shape call.method = some kind)
    (hadmin : call.shape.isAdmin = false)
    (harguments : parseShellArguments now call.arguments.toList = .ok arguments)
    (hchain : Chain.calls now call.remainder.toList = .ok calls) :
    ofCall now defaultLimit call =
      (collectionOperation kind arguments (Chain.modifiers calls) defaultLimit).map fun op =>
        { call
          operation := .onCollection (call.collection.getD "") op
          modifiers := Chain.modifiers calls
          postProcess := none
          defaultLimitApplied :=
            kind = .find && (Chain.modifiers calls).all (·.modifier ≠ .limit) } := by
  rw [ofCall]
  simp only [hkind, harguments, hadmin, hchain]
  rfl

/-- A method with options is one of a collection: its operation is that of the collection, and a
    plan is made of it as it is. -/
theorem ofCall_of_optionsAt? (hkind : OperationKind.ofCall? call.shape call.method = some kind)
    (hat : kind.optionsAt? = some i)
    (harguments : parseShellArguments now call.arguments.toList = .ok arguments)
    (hchain : Chain.calls now call.remainder.toList = .ok calls) :
    ofCall now defaultLimit call =
      (collectionOperation kind arguments (Chain.modifiers calls) defaultLimit).map fun op =>
        { call
          operation := .onCollection (call.collection.getD "") op
          modifiers := Chain.modifiers calls
          postProcess := none
          defaultLimitApplied :=
            kind = .find && (Chain.modifiers calls).all (·.modifier ≠ .limit) } := by
  refine ofCall_of_calls hkind ?_ harguments hchain
  cases hshape : call.shape with
  | collection | getCollection => rfl
  | runCommand | adminCommand | currentOp =>
    rw [hshape] at hkind
    cases hkind
    cases hat

/-- What becomes of the options of a call whose other arguments are in order. The call is planned
    if and only if each entry of the object is one of the options that are listed for its method,
    with null or a value that the option may have, or one of the two that slip. Where none slips,
    each option is set to the value at its key, whatever the order of the keys. A call that is not
    planned is an error in its arguments that names a key of an entry that is not admitted. -/
theorem options_of_ofCall {d : Document} {op : CollectionOperation}
    (hkind : OperationKind.ofCall? call.shape call.method = some kind)
    (hat : kind.optionsAt? = some i)
    (harguments : parseShellArguments now call.arguments.toList = .ok arguments)
    (hchain : Chain.calls now call.remainder.toList = .ok calls)
    (hd : arguments[i]? = some (.document d))
    (hothers : collectionOperation kind (arguments.set i (.document [])) (Chain.modifiers calls)
      defaultLimit = .ok op) :
    ((∃ plan, ofCall now defaultLimit call = .ok plan) ↔
      ∀ entry ∈ d, kind.Admits entry ∨ kind.Slips entry) ∧
    (∀ plan, ofCall now defaultLimit call = .ok plan → (∀ entry ∈ d, ¬ kind.Slips entry) →
      plan.operation = .onCollection (call.collection.getD "") (op.withOptions d)) ∧
    (∀ d' : Document, d'.Perm d → (∀ entry ∈ d, kind.Admits entry ∧ ¬ kind.Slips entry) →
      collectionOperation kind (arguments.set i (.document d')) (Chain.modifiers calls)
        defaultLimit = .ok (op.withOptions d)) ∧
    ∀ e, ofCall now defaultLimit call = .error e →
      ∃ fragment fault, e = .argument fragment fault ∧
        ∃ entry ∈ d, ¬ kind.Admits entry ∧ fault.Names fragment entry.1 := by
  have hnodup := keys_nodup_of_parseShellArguments harguments (List.mem_of_getElem? hd)
  obtain ⟨hi, hself⟩ := List.getElem?_eq_some_iff.1 hd
  have hset : arguments.set i (.document d) = arguments := hself ▸ List.set_getElem_self hi
  obtain ⟨α, reader, taken, value, build, rfl, hreads, hkeys, htable, hplan, hbuild⟩ :=
    (takesOptions hat).of_set hi hothers
  have htaken := taken_iff htable
  have hcall : ofCall now defaultLimit call = _ :=
    ofCall_of_optionsAt? hkind hat harguments hchain
  -- an object of entries that are admitted or slip is read, at any place of its keys
  have hread {d' : Document} (hnodup' : d'.keys.Nodup)
      (hall : ∀ entry ∈ d', op.kind.Admits entry ∨ op.kind.Slips entry) :
      collectionOperation op.kind (arguments.set i (.document d')) (Chain.modifiers calls)
        defaultLimit = .ok (op.withOptionsBy (count? (2 ^ 64)) d') := by
    have hrun := hreads.run_of_taken hkeys hnodup' op.kind fun e he => (htaken e).2 (hall e he)
    rw [hplan, hrun, ← hbuild]
    rfl
  have hrefused (hall : ¬ ∀ entry ∈ d, op.kind.Admits entry ∨ op.kind.Slips entry) :
      ∃ fragment fault, ofCall now defaultLimit call = .error (.argument fragment fault) ∧
        ∃ entry ∈ d, ¬ op.kind.Admits entry ∧ fault.Names fragment entry.1 := by
    obtain ⟨fragment, fault, hrun, entry, hmem, hnot, hnames⟩ :=
      hreads.run_of_not_taken hkeys hnodup op.kind fun h => hall fun e he => (htaken e).1 (h e he)
    refine ⟨fragment, fault, ?_, entry, hmem, fun h => hnot ((htaken entry).2 (.inl h)), hnames⟩
    rw [hcall, ← hset, hplan, hrun]
    rfl
  refine ⟨⟨?_, fun hall => ?_⟩, ?_, fun d' hperm hadmitted => ?_, ?_⟩
  · rintro ⟨plan, hok⟩
    by_contra hall
    obtain ⟨fragment, fault, herror, -⟩ := hrefused hall
    cases hok.symm.trans herror
  · rw [hcall, ← hset, hread hnodup hall]
    exact ⟨_, rfl⟩
  · intro plan hok hslips
    by_cases hall : ∀ entry ∈ d, op.kind.Admits entry ∨ op.kind.Slips entry
    · rw [hcall, ← hset, hread hnodup hall,
        CollectionOperation.withOptionsBy_eq hnodup hslips] at hok
      cases hok
      rfl
    · obtain ⟨fragment, fault, herror, -⟩ := hrefused hall
      cases hok.symm.trans herror
  · have hnodup' : d'.keys.Nodup := (hperm.map Prod.fst).nodup_iff.2 hnodup
    have hmem {entry : String × Value} (h : entry ∈ d') := hadmitted entry (hperm.mem_iff.1 h)
    rw [hread hnodup' fun e he => .inl (hmem he).1,
      CollectionOperation.withOptionsBy_eq hnodup' fun e he => (hmem he).2,
      CollectionOperation.withOptions_perm op hnodup hperm]
  · intro e herror
    by_cases hall : ∀ entry ∈ d, op.kind.Admits entry ∨ op.kind.Slips entry
    · rw [hcall, ← hset, hread hnodup hall] at herror
      cases herror
    · obtain ⟨fragment, fault, herror', hnames⟩ := hrefused hall
      cases herror.symm.trans herror'
      exact ⟨fragment, fault, rfl, hnames⟩

/-- A call with one option that is set and one that is null. -/
def sampleFind : Call where
  shape := .collection
  collection := some "c"
  method := "findOne"
  arguments := "\x7b\x7d, \x7bskip: 2, sort: null\x7d"
  remainder := ""

theorem parse_sampleFind : parseShellArguments 0 sampleFind.arguments.toList =
    .ok [.document [], .document [("skip", .int32 2), ("sort", .null)]] := by
  cbv

/-- A replacement with an option that is not listed. -/
def sampleReplacement : Call where
  shape := .collection
  collection := some "c"
  method := "replaceOne"
  arguments := "\x7b\x7d, \x7ba: 1\x7d, \x7barrayFilters: [\x7bx: 1\x7d]\x7d"
  remainder := ""

theorem parse_sampleReplacement : parseShellArguments 0 sampleReplacement.arguments.toList =
    .ok [.document [], .document [("a", .int32 1)],
      .document [("arrayFilters", .array [.document [("x", .int32 1)]])]] := by
  cbv

theorem options_of_ofCall_sample :
    (∃ plan, ofCall 0 100 sampleFind = .ok plan ∧
      plan.operation = .onCollection "c" (.findOne [] ⟨none, none, some 2⟩)) ∧
    ∃ plan, ofCall 0 100 sampleReplacement = .ok plan := by
  have hchain : Chain.calls 0 "".toList = .ok [] := rfl
  constructor
  · have hkind : OperationKind.ofCall? sampleFind.shape sampleFind.method = some .findOne := by
      decide
    have hothers : collectionOperation .findOne [.document [], .document []] (Chain.modifiers [])
        100 = .ok (.findOne [] ⟨none, none, none⟩) := rfl
    -- an option of its type and one that is null
    have hadmits : ∀ entry ∈ [("skip", .int32 2), ("sort", .null)],
        OperationKind.findOne.Admits entry := by
      simp only [List.forall_mem_cons, List.not_mem_nil, false_imp_iff, implies_true, and_true]
      exact ⟨⟨.typed .count, by decide, .inr (by decide)⟩, ⟨.typed .object, by decide, .inl rfl⟩⟩
    have hslips : ∀ entry ∈ [("skip", .int32 2), ("sort", .null)],
        ¬ OperationKind.findOne.Slips entry := by
      simp [OperationKind.Slips, OperationKind.listed, OperationKind.unlisted, Value.integer?]
    obtain ⟨hplanned, hset, -⟩ := options_of_ofCall hkind rfl parse_sampleFind hchain rfl hothers
    obtain ⟨plan, hplan⟩ := hplanned.2 fun entry h => .inl (hadmits entry h)
    exact ⟨plan, hplan, hset plan hplan hslips⟩
  · have hkind : OperationKind.ofCall? sampleReplacement.shape sampleReplacement.method =
        some .replaceOne := by
      decide
    have hothers : collectionOperation .replaceOne
        [.document [], .document [("a", .int32 1)], .document []] (Chain.modifiers []) 100 =
          .ok (.replaceOne [] [("a", .int32 1)] ⟨none, none, none⟩) := rfl
    obtain ⟨hplanned, -⟩ := options_of_ofCall hkind rfl parse_sampleReplacement hchain rfl hothers
    -- array filters are listed for no replacement, and are read there all the same
    refine hplanned.2 fun entry h => .inr (.inl ⟨.objects, ?_⟩)
    cases List.mem_singleton.1 h
    exact ⟨by decide, .inr rfl⟩

end Plan

end ShellQuery
