/-
  ShellQuery.Proofs.Positions

  The positions of the arguments of a method: a table of what each is for (`OperationKind.roles`), and
  the operation that a method stands for with its arguments in these places (`OperationKind.Stands`).
  A call is planned as that operation if each position holds what it is for, and otherwise it is an
  error in its arguments (`Plan.operation_of_positions`).
-/
import ShellQuery.Proofs.Options.Planning

namespace ShellQuery

/-! ## Positions -/

/-- What a position of the arguments is for. -/
inductive Role where
  /-- An object that may be left out. -/
  | optional
  /-- The options of the method. -/
  | options
  /-- The stages of a pipeline, which may be left out. -/
  | stages
  | object
  | objects
  /-- The keys of an index. -/
  | keys
  | update
  | fieldName
  /-- An index that exists, by its name or by its keys. -/
  | index
deriving DecidableEq

namespace Role

/-- An object that may be left out stands for the empty one then. -/
inductive Optional : Option Value → Document → Prop where
  | absent : Optional none []
  | null : Optional (some .null) []
  | object (d : Document) : Optional (some (.document d)) d

/-- An array of objects may be left out too. -/
inductive Objects : Option Value → Option (List Document) → Prop where
  | absent : Objects none none
  | null : Objects (some .null) none
  | array {v : Value} {ds : List Document} (h : v.objects? = some ds) : Objects (some v) (some ds)

/-- An update is an object with fields or an array of objects. -/
inductive Changes : Option Value → Update → Prop where
  | object {d : Document} (hd : d ≠ []) : Changes (some (.document d)) (.document d)
  | pipeline {v : Value} {ds : List Document} (h : v.objects? = some ds) :
    Changes (some v) (.pipeline ds)

/-- An index is given by its name or by its keys. -/
inductive Names : Option Value → IndexReference → Prop where
  | name {s : String} (hs : s ≠ "") : Names (some (.string s)) (.name s)
  | keys {d : Document} (hd : d ≠ []) : Names (some (.document d)) (.keys d)

/-- Whether an argument, or its absence, is what a position is for. -/
def Takes : Role → Option Value → Prop
  | .optional, v => ∃ d, Optional v d
  | .options, v => Optional v []
  | .stages, v => ∃ ds?, Objects v ds?
  | .object, v => ∃ d, v = some (.document d)
  | .objects, v => ∃ ds, Objects v (some ds)
  | .keys, v => ∃ d, v = some (.document d) ∧ d ≠ []
  | .update, v => ∃ change, Changes v change
  | .fieldName, v => ∃ s, v = some (.string s) ∧ s ≠ ""
  | .index, v => ∃ i, Names v i

end Role

namespace OperationKind

open Role (Optional Objects Changes Names)

/-- The positions of the arguments of a method. -/
def roles : OperationKind → List Role
  | .find => [.optional, .optional]
  | .findOne | .countDocuments | .deleteOne | .deleteMany | .findOneAndDelete =>
    [.optional, .options]
  | .aggregate => [.stages, .options]
  | .distinct => [.fieldName, .optional]
  | .insertOne => [.object]
  | .insertMany => [.objects]
  | .updateOne | .updateMany | .findOneAndUpdate => [.optional, .update, .options]
  | .replaceOne | .findOneAndReplace => [.optional, .object, .options]
  | .createIndex => [.keys, .options]
  | .dropIndex => [.index]
  | .estimatedDocumentCount | .indexes | .stats => []
  | .runCommand | .adminCommand | .currentOp => []

/-- Whether the options of a method are left out, or have no entry. -/
def OptionsUnset (kind : OperationKind) (arguments : List Value) : Prop :=
  ∀ i : Nat, kind.roles[i]? = some Role.options → Optional arguments[i]? []

/-- The operation that a method stands for with its arguments in their positions, where no option
    is set. -/
def Stands (limit : Int64) (arguments : List Value) (kind : OperationKind)
    (op : CollectionOperation) : Prop :=
  match kind with
  | .find => ∃ filter, Optional arguments[0]? filter ∧
      ∃ projection, Optional arguments[1]? projection ∧
        op = .find {
          filter
          projection := if projection = [] then none else some projection
          sort := none
          skip := none
          limit }
  | .findOne => ∃ filter, Optional arguments[0]? filter ∧ op = .findOne filter ⟨none, none, none⟩
  | .aggregate => ∃ stages, Objects arguments[0]? stages ∧
      op = .aggregate (stages.getD []) ⟨none, none, none, none, none⟩
  | .countDocuments => ∃ filter, Optional arguments[0]? filter ∧
      op = .countDocuments filter ⟨none, none, none, none⟩
  | .estimatedDocumentCount => op = .estimatedDocumentCount
  | .distinct => ∃ field, (arguments[0]? = some (.string field) ∧ field ≠ "") ∧
      ∃ filter, Optional arguments[1]? filter ∧ op = .distinct field filter
  | .indexes => op = .indexes
  | .stats => op = .stats
  | .insertOne => ∃ d, arguments[0]? = some (.document d) ∧ op = .insertOne d
  | .insertMany => ∃ ds, Objects arguments[0]? (some ds) ∧ op = .insertMany ds
  | .updateOne => ∃ filter, Optional arguments[0]? filter ∧
      ∃ change, Changes arguments[1]? change ∧ op = .updateOne filter change ⟨none, none, none⟩
  | .updateMany => ∃ filter, Optional arguments[0]? filter ∧
      ∃ change, Changes arguments[1]? change ∧ op = .updateMany filter change ⟨none, none, none⟩
  | .replaceOne => ∃ filter, Optional arguments[0]? filter ∧
      ∃ d, arguments[1]? = some (.document d) ∧ op = .replaceOne filter d ⟨none, none, none⟩
  | .deleteOne => ∃ filter, Optional arguments[0]? filter ∧
      op = .deleteOne filter ⟨none, none, none⟩
  | .deleteMany => ∃ filter, Optional arguments[0]? filter ∧
      op = .deleteMany filter ⟨none, none, none⟩
  | .findOneAndUpdate => ∃ filter, Optional arguments[0]? filter ∧
      ∃ change, Changes arguments[1]? change ∧
        op = .findOneAndUpdate filter change ⟨none, none, none, false, none⟩
  | .findOneAndDelete => ∃ filter, Optional arguments[0]? filter ∧
      op = .findOneAndDelete filter ⟨none, none, none, false, none⟩
  | .findOneAndReplace => ∃ filter, Optional arguments[0]? filter ∧
      ∃ d, arguments[1]? = some (.document d) ∧
        op = .findOneAndReplace filter d ⟨none, none, none, false, none⟩
  | .createIndex => ∃ keys, (arguments[0]? = some (.document keys) ∧ keys ≠ []) ∧
      op = .createIndex keys ⟨none, none, none, none, none, none⟩
  | .dropIndex => ∃ i, Names arguments[0]? i ∧ op = .dropIndex i
  | .runCommand | .adminCommand | .currentOp => False

end OperationKind

/-! ## Readers -/

/-- Whether a reading comes to what satisfies a condition, and is an error in the arguments where
    nothing does. -/
structure Yields {α : Type} (x : Except QueryError α) (P : α → Prop) : Prop where
  ok_iff : ∀ a, x = .ok a ↔ P a
  error : ∀ e, x = .error e → ∃ fragment fault, e = .argument fragment fault

namespace Yields

variable {α β : Type} {x : Except QueryError α} {P P' : α → Prop}

theorem of_ok {a : α} (ha : P a) (hunique : ∀ b, P b → b = a) : Yields (.ok a) P where
  ok_iff := by
    intro b
    constructor
    · rintro ⟨⟩
      exact ha
    · intro hb
      rw [hunique b hb]
  error := nofun

theorem of_none {fragment : String} {fault : ArgumentFault} (h : ∀ a, ¬ P a) :
    Yields (.error (.argument fragment fault)) P where
  ok_iff a := ⟨nofun, fun ha => absurd ha (h a)⟩
  error := by
    rintro _ ⟨⟩
    exact ⟨fragment, fault, rfl⟩

theorem pure (a : α) : Yields (pure a) (· = a) :=
  of_ok rfl fun _ h => h

theorem bind {f : α → Except QueryError β} {Q : α → β → Prop} (hx : Yields x P)
    (hf : ∀ a, P a → Yields (f a) (Q a)) : Yields (x >>= f) fun b => ∃ a, P a ∧ Q a b where
  ok_iff := by
    intro b
    rw [bind_eq_ok]
    constructor
    · rintro ⟨a, ha, hb⟩
      have hPa := (hx.ok_iff a).1 ha
      exact ⟨a, hPa, ((hf a hPa).ok_iff b).1 hb⟩
    · rintro ⟨a, hPa, hQ⟩
      exact ⟨a, (hx.ok_iff a).2 hPa, ((hf a hPa).ok_iff b).2 hQ⟩
  error := by
    intro e he
    cases hxa : x with
    | error e' =>
      rw [hxa] at he
      cases he
      exact hx.error e hxa
    | ok a =>
      rw [hxa] at he
      exact (hf a ((hx.ok_iff a).1 hxa)).error e he

theorem congr (hx : Yields x P) (h : ∀ a, P a ↔ P' a) : Yields x P' where
  ok_iff a := (hx.ok_iff a).trans (h a)
  error := hx.error

theorem map (f : α → β) (hx : Yields x P) : Yields (x.map f) fun b => ∃ a, P a ∧ b = f a := by
  have hmap : x.map f = x >>= fun a => Pure.pure (f a) := by
    cases x <;> rfl
  rw [hmap]
  exact hx.bind fun a _ => pure (f a)

/-- Where nothing satisfies the condition, a reading is an error, and the other way round. -/
theorem error_iff (hx : Yields x P) :
    (∃ fragment fault, x = .error (.argument fragment fault)) ↔ ¬ ∃ a, P a := by
  cases hxa : x with
  | ok a =>
    have hPa := (hx.ok_iff a).1 hxa
    simp [Exists.intro a hPa]
  | error e =>
    obtain ⟨fragment, fault, rfl⟩ := hx.error e hxa
    have hnone : ¬ ∃ a, P a := by
      rintro ⟨a, hPa⟩
      cases hxa.symm.trans ((hx.ok_iff a).2 hPa)
    simp [hnone]

end Yields

/-! ## Arguments -/

open Role (Optional Objects Changes Names Takes)

namespace OperationKind

variable (kind : OperationKind) (v : Option Value) (name : String) (what : Requirement)

theorem yields_optionalDocument : Yields (kind.optionalDocument v name) (Optional v) := by
  rcases v with - | v
  · refine .of_ok .absent ?_
    rintro _ ⟨⟩
    rfl
  cases v with
  | null =>
    refine .of_ok .null ?_
    rintro _ ⟨⟩
    rfl
  | document d =>
    refine .of_ok (.object d) ?_
    rintro _ ⟨⟩
    rfl
  | _ => exact .of_none nofun

theorem yields_requiredDocument :
    Yields (kind.requiredDocument v what) fun d => v = some (.document d) := by
  rcases v with - | v
  · exact .of_none nofun
  cases v with
  | document d =>
    refine .of_ok rfl ?_
    rintro _ ⟨⟩
    rfl
  | _ => exact .of_none nofun

theorem yields_documentsOf (items : List Value) :
    Yields (kind.documentsOf name items) fun ds => (Value.array items).objects? = some ds := by
  cases hitems : items.mapM Value.object? with
  | some ds =>
    rw [kind.documentsOf_of_objects name hitems]
    exact .of_ok hitems fun ds' hds' => Option.some_inj.1 (hds'.symm.trans hitems)
  | none =>
    obtain ⟨w, hw⟩ := kind.documentsOf_of_other name hitems
    rw [hw]
    refine .of_none fun ds hds => ?_
    cases hitems.symm.trans hds

theorem yields_documentArray : Yields (kind.documentArray v name) (Objects v) := by
  rcases v with - | v
  · refine .of_ok .absent ?_
    rintro _ ⟨⟩
    rfl
  cases v with
  | null =>
    refine .of_ok .null ?_
    rintro _ (_ | _ | h)
    · rfl
    · cases h
  | array items =>
    refine ((kind.yields_documentsOf name items).map some).congr fun ds? => ?_
    constructor
    · rintro ⟨ds, hds, rfl⟩
      exact .array hds
    · rintro (_ | _ | hds)
      exact ⟨_, hds, rfl⟩
  | _ =>
    refine .of_none ?_
    rintro _ (_ | _ | h)
    cases h

theorem yields_update : Yields (kind.update v) (Changes v) := by
  rcases v with - | v
  · exact .of_none nofun
  cases v with
  | document d =>
    -- an empty document changes nothing, and no operation stands for it
    cases d with
    | nil =>
      refine .of_none ?_
      rintro _ (hd | h)
      · exact hd rfl
      · cases h
    | cons field fields =>
      refine .of_ok (.object (List.cons_ne_nil _ _)) ?_
      rintro _ (_ | h)
      · rfl
      · cases h
  | array items =>
    refine ((kind.yields_documentsOf _ items).map Update.pipeline).congr fun change => ?_
    constructor
    · rintro ⟨ds, hds, rfl⟩
      exact .pipeline hds
    · rintro (_ | hds)
      exact ⟨_, hds, rfl⟩
  | _ =>
    refine .of_none ?_
    rintro _ (_ | h)
    cases h

end OperationKind

namespace Plan

variable {kind : OperationKind} {arguments : List Value} {i : Nat} {limit : Int64}

/-- Options that are not set are read as those of an empty object. -/
theorem yields_options {α : Type} {reader : OptionReader α} {a : α}
    (hoptions : Optional arguments[i]? []) (hread : OptionReader.run kind reader [] = .ok a)
    (build : α → CollectionOperation) :
    Yields (options kind arguments i reader >>= fun a => pure (build a)) (· = build a) := by
  have hnone : kind.optionalDocument arguments[i]? "options" = .ok [] :=
    ((kind.yields_optionalDocument _ _).ok_iff []).2 hoptions
  have hrun : options kind arguments i reader = .ok a := by
    rw [options, hnone]
    exact hread
  rw [hrun]
  exact .pure _

theorem yields_insertMany : Yields (collectionOperation .insertMany arguments [] limit)
    (OperationKind.insertMany.Stands limit arguments) := by
  refine ((OperationKind.yields_documentArray ..).bind
    (Q := fun ds? op => ∃ ds, ds? = some ds ∧ op = .insertMany ds) fun ds? _ => ?_).congr fun op => ?_
  · -- what may be left out of a pipeline is missing here
    cases ds? with
    | none =>
      refine .of_none ?_
      rintro _ ⟨_, ⟨⟩, -⟩
    | some ds =>
      refine .of_ok ⟨ds, rfl, rfl⟩ ?_
      rintro _ ⟨_, ⟨⟩, rfl⟩
      rfl
  · constructor
    · rintro ⟨_, hds, ds, rfl, rfl⟩
      exact ⟨ds, hds, rfl⟩
    · rintro ⟨ds, hds, rfl⟩
      exact ⟨_, hds, ds, rfl, rfl⟩

theorem yields_createIndex (hoptions : Optional arguments[1]? []) :
    Yields (collectionOperation .createIndex arguments [] limit)
      (OperationKind.createIndex.Stands limit arguments) := by
  refine ((OperationKind.yields_requiredDocument ..).bind
    (Q := fun keys op => keys ≠ [] ∧ op = .createIndex keys ⟨none, none, none, none, none, none⟩)
    fun keys _ => ?_).congr fun op => exists_congr fun keys => and_assoc.symm
  cases keys with
  | nil => exact .of_none fun _ h => h.1 rfl
  | cons field fields =>
    refine (yields_options hoptions rfl _).congr fun op => ?_
    exact (and_iff_right (List.cons_ne_nil _ _)).symm

theorem yields_distinct : Yields (collectionOperation .distinct arguments [] limit)
    (OperationKind.distinct.Stands limit arguments) := by
  have hnone (h : ∀ s, arguments[0]? = some (.string s) → s = "") :
      ∀ op, ¬ OperationKind.distinct.Stands limit arguments op := by
    rintro op ⟨s, ⟨hs, hne⟩, -⟩
    exact hne (h s hs)
  unfold collectionOperation
  rw [List.head?_eq_getElem?]
  dsimp only
  split
  · rename_i field hfield
    split
    · rename_i hempty
      refine .of_none (hnone fun s hs => ?_)
      cases hfield.symm.trans hs
      exact hempty
    · rename_i hne
      refine ((OperationKind.yields_optionalDocument ..).bind fun filter _ => .pure _).congr
        fun op => ?_
      constructor
      · intro h
        exact ⟨field, ⟨hfield, hne⟩, h⟩
      · rintro ⟨s, ⟨hs, -⟩, h⟩
        cases hfield.symm.trans hs
        exact h
  · rename_i hother
    exact .of_none (hnone fun s hs => absurd hs (hother s))

theorem yields_dropIndex : Yields (collectionOperation .dropIndex arguments [] limit)
    (OperationKind.dropIndex.Stands limit arguments) := by
  unfold collectionOperation OperationKind.Stands
  rw [List.head?_eq_getElem?]
  dsimp only
  split
  · rename_i name hname
    rw [hname]
    split
    · rename_i hempty
      refine .of_none ?_
      rintro _ ⟨_, ⟨hs⟩, -⟩
      exact hs hempty
    · rename_i hne
      refine .of_ok ⟨_, .name hne, rfl⟩ ?_
      rintro _ ⟨_, ⟨⟩, rfl⟩
      rfl
  · rename_i field fields hkeys
    rw [hkeys]
    refine .of_ok ⟨_, .keys (List.cons_ne_nil _ _), rfl⟩ ?_
    rintro _ ⟨_, ⟨⟩, rfl⟩
    rfl
  · -- neither the name of an index nor its keys
    rename_i hstring hkeys
    refine .of_none ?_
    rintro _ ⟨i, hi, -⟩
    generalize arguments[0]? = v at *
    cases hi with
    | name => exact hstring _ rfl
    | @keys d hd =>
      obtain ⟨field, fields, rfl⟩ := List.exists_cons_of_ne_nil hd
      exact hkeys _ _ rfl

/-- A method with no options set yields the operation that it stands for. -/
theorem yields_collectionOperation (hkind : kind ∈ OperationKind.collectionMethods)
    (hoptions : kind.OptionsUnset arguments) :
    Yields (collectionOperation kind arguments [] limit) (kind.Stands limit arguments) := by
  -- one reader for each position, in the order of the positions; methods with the same are read alike
  cases kind with
  | find =>
    have hplan : collectionOperation .find arguments [] limit =
        OperationKind.find.optionalDocument arguments[0]? "filter" >>= fun filter =>
          OperationKind.find.optionalDocument arguments[1]? "projection" >>= fun projection =>
            pure (.find {
              filter
              projection := if projection = [] then none else some projection
              sort := none
              skip := none
              limit }) := by
      simp [collectionOperation, findSpec]
    rw [hplan]
    exact (OperationKind.yields_optionalDocument ..).bind fun filter _ =>
      (OperationKind.yields_optionalDocument ..).bind fun projection _ => .pure _
  | findOne | countDocuments | deleteOne | deleteMany | findOneAndDelete =>
    exact (OperationKind.yields_optionalDocument ..).bind fun filter _ =>
      yields_options (hoptions 1 rfl) rfl _
  | aggregate =>
    exact (OperationKind.yields_documentArray ..).bind fun stages _ =>
      yields_options (hoptions 1 rfl) rfl _
  | updateOne | updateMany | findOneAndUpdate =>
    exact (OperationKind.yields_optionalDocument ..).bind fun filter _ =>
      (OperationKind.yields_update ..).bind fun change _ => yields_options (hoptions 2 rfl) rfl _
  | replaceOne | findOneAndReplace =>
    exact (OperationKind.yields_optionalDocument ..).bind fun filter _ =>
      (OperationKind.yields_requiredDocument ..).bind fun d _ =>
        yields_options (hoptions 2 rfl) rfl _
  | insertOne => exact (OperationKind.yields_requiredDocument ..).bind fun d _ => .pure _
  | insertMany => exact yields_insertMany
  | distinct => exact yields_distinct
  | createIndex => exact yields_createIndex (hoptions 1 rfl)
  | dropIndex => exact yields_dropIndex
  | estimatedDocumentCount | indexes | stats => exact .pure _
  | runCommand | adminCommand | currentOp => exact absurd hkind (by decide)

/-- A method stands for an operation if each position holds what it is for. -/
theorem exists_stands_iff (hkind : kind ∈ OperationKind.collectionMethods)
    (hoptions : kind.OptionsUnset arguments) :
    (∃ op, kind.Stands limit arguments op) ↔
      ∀ (i : Nat) role, kind.roles[i]? = some role → role.Takes arguments[i]? := by
  have hroles : (∀ (i : Nat) role, kind.roles[i]? = some role → role.Takes arguments[i]?) ↔
      ∀ p ∈ kind.roles.zipIdx, p.1.Takes arguments[p.2]? := by
    simp only [Prod.forall, List.mem_zipIdx_iff_getElem?]
    exact forall_comm
  rw [hroles]
  -- the methods are told apart by the place of their options, which hold nothing
  cases kind with
  | runCommand | adminCommand | currentOp => exact absurd hkind (by decide)
  | find | estimatedDocumentCount | distinct | indexes | stats | insertOne | insertMany | dropIndex =>
    simp [OperationKind.Stands, OperationKind.roles, Takes]
  | findOne | aggregate | countDocuments | deleteOne | deleteMany | findOneAndDelete | createIndex =>
    simp [OperationKind.Stands, OperationKind.roles, Takes, hoptions 1 rfl]
  | updateOne | updateMany | replaceOne | findOneAndUpdate | findOneAndReplace =>
    simp [OperationKind.Stands, OperationKind.roles, Takes, hoptions 2 rfl]

/-- Arguments after the last position of a method do not count. -/
theorem collectionOperation_take (kind : OperationKind) (arguments : List Value)
    (modifiers : List ChainedModifier) (limit : Int64) :
    collectionOperation kind (arguments.take kind.roles.length) modifiers limit =
      collectionOperation kind arguments modifiers limit := by
  -- a method looks at no position but those that its table has
  cases kind <;>
    simp only [collectionOperation, findSpec, options, OperationKind.roles, List.head?_eq_getElem?,
      List.length_cons, List.length_nil, List.getElem?_take, Nat.reduceAdd, Nat.reduceLT, if_true]

/-! ## Calls -/

variable {now : Int64} {call : Call}

theorem mem_collectionMethods_of_ofCall?
    (hkind : OperationKind.ofCall? call.shape call.method = some kind)
    (hadmin : call.shape.isAdmin = false) : kind ∈ OperationKind.collectionMethods := by
  cases hshape : call.shape with
  | collection | getCollection =>
    rw [hshape, OperationKind.ofCall?] at hkind
    exact List.mem_of_find?_eq_some hkind
  | runCommand | adminCommand | currentOp =>
    rw [hshape] at hadmin
    cases hadmin

/-- What becomes of the arguments of a call on a collection, with no option set and nothing chained
    to it. The call is planned as the operation that its method stands for with the arguments in
    their positions, and there is one if each position of the method holds what it is for. The call
    is an error in its arguments if some position does not. Arguments after the last position do not
    count. -/
theorem operation_of_positions
    (hkind : OperationKind.ofCall? call.shape call.method = some kind)
    (hadmin : call.shape.isAdmin = false)
    (harguments : parseShellArguments now call.arguments.toList = .ok arguments)
    (hremainder : call.remainder = "") (hoptions : kind.OptionsUnset arguments) :
    (∀ op, (∃ plan, ofCall now limit call = .ok plan ∧
        plan.operation = .onCollection (call.collection.getD "") op) ↔
      kind.Stands limit arguments op) ∧
    ((∃ op, kind.Stands limit arguments op) ↔
      ∀ (i : Nat) role, kind.roles[i]? = some role → role.Takes arguments[i]?) ∧
    ((∃ fragment fault, ofCall now limit call = .error (.argument fragment fault)) ↔
      ∃ (i : Nat) (role : Role), kind.roles[i]? = some role ∧ ¬ role.Takes arguments[i]?) ∧
    ∀ {text : String} {arguments' : List Value},
      parseShellArguments now text.toList = .ok arguments' →
      arguments'.take kind.roles.length = arguments.take kind.roles.length →
        (ofCall now limit { call with arguments := text }).map (·.operation) =
          (ofCall now limit call).map (·.operation) := by
  have hmethod := mem_collectionMethods_of_ofCall? hkind hadmin
  have hyields : Yields (collectionOperation kind arguments [] limit) (kind.Stands limit arguments) :=
    yields_collectionOperation hmethod hoptions
  have hchain : Chain.calls now call.remainder.toList = .ok [] := by
    rw [hremainder]
    rfl
  have hmodifiers : Chain.modifiers [] = [] := rfl
  have hcall : ofCall now limit call = _ := ofCall_of_calls hkind hadmin harguments hchain
  rw [hmodifiers] at hcall
  refine ⟨fun op => ?_, exists_stands_iff hmethod hoptions, ?_, ?_⟩
  · -- without modifiers the plan is the operation, so both are made together
    rw [← hyields.ok_iff, hcall]
    cases collectionOperation kind arguments [] limit with
    | ok op' => simp [Except.map]
    | error e => simp [Except.map]
  · -- and both are refused together
    have hrefused : (∃ fragment fault, ofCall now limit call = .error (.argument fragment fault)) ↔
        ∃ fragment fault, collectionOperation kind arguments [] limit =
          .error (.argument fragment fault) := by
      rw [hcall]
      cases collectionOperation kind arguments [] limit <;> simp [Except.map]
    rw [hrefused, hyields.error_iff, exists_stands_iff hmethod hoptions]
    push Not
    rfl
  · intro text arguments' harguments' htake
    -- the operation is planned from the arguments in the positions of the method alone
    have hcall' : ofCall now limit { call with arguments := text } = _ :=
      ofCall_of_calls hkind hadmin harguments' hchain
    rw [hmodifiers, ← collectionOperation_take, htake, collectionOperation_take] at hcall'
    rw [hcall, hcall']
    cases collectionOperation kind arguments [] limit <;> rfl

/-- An update without a filter and without options. -/
def sampleUpdate : Call where
  shape := .collection
  collection := some "c"
  method := "updateOne"
  arguments := "null, \x7ba: 1\x7d, null"
  remainder := ""

/-- An insertion with the same arguments. -/
def sampleInsertion : Call :=
  { sampleUpdate with method := "insertOne" }

theorem parse_sampleUpdate : parseShellArguments 0 sampleUpdate.arguments.toList =
    .ok [.null, .document [("a", .int32 1)], .null] := by
  cbv

theorem parse_sampleUpdate_more : parseShellArguments 0 "null, \x7ba: 1\x7d, null, 7".toList =
    .ok [.null, .document [("a", .int32 1)], .null, .int32 7] := by
  cbv

/-- The update is planned, and a fourth argument changes nothing. The insertion is refused, since null
    is no document. -/
theorem operation_of_positions_sample :
    (∃ plan, ofCall 0 100 sampleUpdate = .ok plan ∧ plan.operation =
      .onCollection "c" (.updateOne [] (.document [("a", .int32 1)]) ⟨none, none, none⟩)) ∧
    (ofCall 0 100 { sampleUpdate with arguments := "null, \x7ba: 1\x7d, null, 7" }).map (·.operation) =
      (ofCall 0 100 sampleUpdate).map (·.operation) ∧
    ∃ fragment fault, ofCall 0 100 sampleInsertion = .error (.argument fragment fault) := by
  have hupdate : OperationKind.ofCall? sampleUpdate.shape sampleUpdate.method = some .updateOne := by
    decide
  have hinsert : OperationKind.ofCall? sampleInsertion.shape sampleInsertion.method =
      some .insertOne := by
    decide
  have hunset : OperationKind.updateOne.OptionsUnset [.null, .document [("a", .int32 1)], .null] := by
    rintro (_ | _ | _ | i) h <;> cases h
    exact .null
  have hunset' : OperationKind.insertOne.OptionsUnset [.null, .document [("a", .int32 1)], .null] := by
    rintro (_ | i) h <;> cases h
  obtain ⟨hplanned, -, -, hmore⟩ :=
    operation_of_positions hupdate rfl parse_sampleUpdate rfl hunset
  obtain ⟨-, -, hrefused, -⟩ :=
    operation_of_positions hinsert rfl parse_sampleUpdate rfl hunset'
  refine ⟨(hplanned _).2 ⟨[], .null, _, .object (List.cons_ne_nil _ _), rfl⟩,
    hmore parse_sampleUpdate_more rfl, hrefused.2 ⟨0, .object, rfl, nofun⟩⟩

end Plan

end ShellQuery
