/-
  ShellQuery.Proofs.Server.Request

  What a driver is handed for an operation. Operations and the calls of a driver are described in the
  same words, part by part (`Parts`). An operation on a collection is one call, and what it returns is
  at most fetched by another one (`Runs`); the call has every part of the operation with its value,
  but for the array filters of a replacement, for which the call has no place.
-/
import ShellQuery.Proofs.Accepted
import ShellQuery.Server.Handle

namespace ShellQuery

/-! ## Parts -/

/-- The parts of an operation or of a call that may be set. Lengths of time are in milliseconds. -/
structure Parts where
  filter : Option Document := none
  projection : Option Document := none
  sort : Option Document := none
  skip : Option Nat := none
  limit : Option Int := none
  upsert : Option Bool := none
  arrayFilters : Option (List Document) := none
  hint : Option IndexReference := none
  batchSize : Option Nat := none
  maxTime : Option Nat := none
  comment : Option String := none
  allowDiskUse : Option Bool := none
  returnAfter : Bool := false
  pipeline : Option (List Document) := none
  field : Option String := none
  documents : Option (List Document) := none
  update : Option Update := none
  replacement : Option Document := none
  keys : Option Document := none
  name : Option String := none
  unique : Option Bool := none
  sparse : Option Bool := none
  expireAfter : Option Nat := none
  partialFilter : Option Document := none
  background : Option Bool := none

section
variable (p : Parts)

/-- Sets the options of updates, replacements and deletions. -/
@[simp] def Parts.withWrite (spec : WriteSpec) : Parts :=
  { p with upsert := spec.upsert, arrayFilters := spec.arrayFilters, hint := spec.hint }

/-- Sets the options of the methods that change one document and return it. -/
@[simp] def Parts.withFindAndModify (spec : FindAndModifySpec) : Parts :=
  { p with
    projection := spec.projection, sort := spec.sort, upsert := spec.upsert
    returnAfter := spec.returnAfter, arrayFilters := spec.arrayFilters }

end

/-- The parts of an operation. -/
@[simp] def CollectionOperation.parts : CollectionOperation → Parts
  | .find spec => {
      filter := spec.filter, projection := spec.projection, sort := spec.sort, skip := spec.skip
      limit := spec.limit.toInt }
  | .findOne filter options => {
      filter, projection := options.projection, sort := options.sort, skip := options.skip }
  | .aggregate pipeline options => {
      pipeline, allowDiskUse := options.allowDiskUse, batchSize := options.batchSize
      maxTime := options.maxTimeMs, comment := options.comment, hint := options.hint }
  | .countDocuments filter options => {
      filter, limit := options.limit.map Int.ofNat, skip := options.skip
      maxTime := options.maxTimeMs, hint := options.hint }
  | .distinct field filter => { field, filter }
  | .insertOne document => { documents := [document] }
  | .insertMany documents => { documents }
  | .updateOne filter update options | .updateMany filter update options =>
    { filter, update : Parts }.withWrite options
  | .replaceOne filter replacement options => { filter, replacement : Parts }.withWrite options
  | .deleteOne filter options | .deleteMany filter options => { filter : Parts }.withWrite options
  | .findOneAndUpdate filter update options =>
    { filter, update : Parts }.withFindAndModify options
  | .findOneAndDelete filter options => { filter : Parts }.withFindAndModify options
  | .findOneAndReplace filter replacement options =>
    { filter, replacement : Parts }.withFindAndModify options
  | .createIndex keys options => {
      keys, name := options.name, unique := options.unique, sparse := options.sparse
      expireAfter := options.expireAfterSeconds.map (· * 1000)
      partialFilter := options.partialFilter, background := options.background }
  | .estimatedDocumentCount | .indexes | .stats | .dropIndex _ => {}

namespace Server

/-- The index that a hint names. -/
def Hint.index : Hint → IndexReference
  | .name s => .name s
  | .keys d => .keys d

@[simp] theorem Hint.index_ofIndex (i : IndexReference) : (Hint.ofIndex i).index = i := by
  cases i <;> rfl

@[simp] theorem map_index_map_ofIndex (i : Option IndexReference) :
    (i.map Hint.ofIndex).map Hint.index = i := by
  cases i <;> simp

@[simp] theorem map_millis_map_ofMillis (n : Option Nat) :
    (n.map Duration.ofMillis).map Duration.millis = n := by
  cases n <;> simp

@[simp] theorem map_millis_map_ofSeconds (n : Option Nat) :
    (n.map Duration.ofSeconds).map Duration.millis = n.map (· * 1000) := by
  cases n <;> simp

/-- A comment is handed over as a value. -/
@[simp] theorem bind_string?_map_string (s : Option String) :
    (s.map Value.string).bind Value.string? = s := by
  cases s <;> rfl

/-- The update that is asked for. -/
def Modifications.update : Modifications → Update
  | .document d => .document d
  | .pipeline stages => .pipeline stages

@[simp] theorem Modifications.update_ofUpdate (u : Update) : (ofUpdate u).update = u := by
  cases u <;> rfl

@[simp] theorem ReturnDocument.ofSpec_eq_after {spec : FindAndModifySpec} :
    ofSpec spec = .after ↔ spec.returnAfter = true := by
  unfold ofSpec
  split <;> simp_all

namespace Request

/-- The parts of a call. -/
@[simp] def parts {α : Type} : Request α → Parts
  | .find _ filter options => {
      filter, projection := options.projection, sort := options.sort, skip := options.skip
      limit := options.limit.map Int64.toInt }
  | .findOne _ filter options => {
      filter, projection := options.projection, sort := options.sort, skip := options.skip }
  | .aggregate _ pipeline options => {
      pipeline, allowDiskUse := options.allowDiskUse, batchSize := options.batchSize
      maxTime := options.maxTime.map Duration.millis
      comment := options.comment.bind Value.string?, hint := options.hint.map Hint.index }
  | .countDocuments _ filter options => {
      filter, limit := options.limit.map Int.ofNat, skip := options.skip
      maxTime := options.maxTime.map Duration.millis, hint := options.hint.map Hint.index }
  | .distinct _ field filter => { field, filter }
  | .insertOne _ document => { documents := [document] }
  | .insertMany _ documents => { documents }
  | .updateOne _ filter change options | .updateMany _ filter change options => {
      filter, update := change.update, upsert := options.upsert
      arrayFilters := options.arrayFilters, hint := options.hint.map Hint.index }
  | .replaceOne _ filter replacement options => {
      filter, replacement, upsert := options.upsert, hint := options.hint.map Hint.index }
  | .deleteOne _ filter options | .deleteMany _ filter options => {
      filter, hint := options.hint.map Hint.index }
  | .findOneAndUpdate _ filter change options => {
      filter, update := change.update, projection := options.projection, sort := options.sort
      upsert := options.upsert, arrayFilters := options.arrayFilters
      returnAfter := options.returnDocument = some .after }
  | .findOneAndDelete _ filter options => {
      filter, projection := options.projection, sort := options.sort }
  | .findOneAndReplace _ filter replacement options => {
      filter, replacement, projection := options.projection, sort := options.sort
      upsert := options.upsert, returnAfter := options.returnDocument = some .after }
  | .createIndex _ keys options => {
      keys, name := options.name, unique := options.unique, sparse := options.sparse
      expireAfter := options.expireAfter.map Duration.millis
      partialFilter := options.partialFilterExpression, background := options.background }
  | .runCommand _ _ | .listCollectionNames _ | .aggregateDatabase _ _ | .collect _
  | .estimatedDocumentCount _ => {}

/-- The collection that a call is made on, if it is not made on a database itself. -/
def place? {α : Type} : Request α → Option Namespace
  | .find ns _ _ | .findOne ns _ _ | .aggregate ns _ _ | .countDocuments ns _ _
  | .estimatedDocumentCount ns | .distinct ns _ _ | .insertOne ns _ | .insertMany ns _
  | .updateOne ns _ _ _ | .updateMany ns _ _ _ | .replaceOne ns _ _ _ | .deleteOne ns _ _
  | .deleteMany ns _ _ | .findOneAndUpdate ns _ _ _ | .findOneAndDelete ns _ _
  | .findOneAndReplace ns _ _ _ | .createIndex ns _ _ => some ns
  | .runCommand _ _ | .listCollectionNames _ | .aggregateDatabase _ _ | .collect _ => none

end Request

/-! ## What runs -/

/-- Whether a conversation of a client makes one call, and at most fetches what that returns. -/
def Driver.Runs {κ σ α : Type} (driver : Driver κ σ) (client : κ) (r : Request α)
    (dialogue : Dialogue σ Value) : Prop :=
  ∃ next : α → Dialogue σ Value, dialogue = driver.call client r >>= next ∧
    ∀ a, (∃ v, next a = pure v) ∨
      ∃ cursor, next a = documents <$> driver.call client (.collect cursor)

/-- What a call returns is shown as a value. -/
theorem Driver.Runs.of_shape {κ σ α : Type} (driver : Driver κ σ) (client : κ) (r : Request α)
    (shape : α → Value) : driver.Runs client r (do return shape (← driver.call client r)) :=
  ⟨_, rfl, fun a => .inl ⟨shape a, rfl⟩⟩

/-- A request whose reply is a cursor is run, and then the documents are collected. -/
theorem Driver.Runs.of_cursor {κ σ : Type} (driver : Driver κ σ) (client : κ)
    (r : Request Cursor) : driver.Runs client r (do
      let cursor ← driver.call client r
      return documents (← driver.call client (.collect cursor))) :=
  ⟨_, rfl, fun cursor => .inr ⟨cursor, rfl⟩⟩

/-- The call that an operation on a collection comes to. -/
@[simp] def callOf (ns : Namespace) : CollectionOperation → (α : Type) × Request α
  | .find spec => ⟨_, .find ns spec.filter (.ofSpec spec)⟩
  | .findOne filter options => ⟨_, .findOne ns filter (.ofSpec options)⟩
  | .aggregate pipeline options => ⟨_, .aggregate ns pipeline (.ofSpec options)⟩
  | .countDocuments filter options => ⟨_, .countDocuments ns filter (.ofSpec options)⟩
  | .estimatedDocumentCount => ⟨_, .estimatedDocumentCount ns⟩
  | .distinct field filter => ⟨_, .distinct ns field filter⟩
  | .indexes => ⟨_, .runCommand ns.database [("listIndexes", .string ns.collection)]⟩
  | .stats => ⟨_, .runCommand ns.database [("collStats", .string ns.collection)]⟩
  | .insertOne document => ⟨_, .insertOne ns document⟩
  | .insertMany documents => ⟨_, .insertMany ns documents⟩
  | .updateOne filter update options =>
    ⟨_, .updateOne ns filter (.ofUpdate update) (.ofSpec options)⟩
  | .updateMany filter update options =>
    ⟨_, .updateMany ns filter (.ofUpdate update) (.ofSpec options)⟩
  | .replaceOne filter replacement options =>
    ⟨_, .replaceOne ns filter replacement (.ofSpec options)⟩
  | .deleteOne filter options => ⟨_, .deleteOne ns filter (.ofSpec options)⟩
  | .deleteMany filter options => ⟨_, .deleteMany ns filter (.ofSpec options)⟩
  | .findOneAndUpdate filter update options =>
    ⟨_, .findOneAndUpdate ns filter (.ofUpdate update) (.ofSpec options)⟩
  | .findOneAndDelete filter options => ⟨_, .findOneAndDelete ns filter (.ofSpec options)⟩
  | .findOneAndReplace filter replacement options =>
    ⟨_, .findOneAndReplace ns filter replacement (.ofSpec options)⟩
  | .createIndex keys options => ⟨_, .createIndex ns keys (.ofSpec options)⟩
  | .dropIndex index => ⟨_, .runCommand ns.database
      [("dropIndexes", .string ns.collection), ("index", indexValue index)]⟩

/-- On every handle an operation is run as the call that belongs to it. -/
theorem runs_callOf {κ σ : Type} (driver : Driver κ σ) (handle : Handle κ) (collection : String)
    (op : CollectionOperation) :
    driver.Runs handle.client (callOf ⟨handle.database, collection⟩ op).2
      (handle.run driver (.onCollection collection op)) := by
  cases op with
  | find | aggregate => exact .of_cursor ..
  | _ => exact .of_shape ..

/-- The call of an operation is made on its collection. -/
theorem place?_callOf (ns : Namespace) {op : CollectionOperation}
    (h : op.kind ∉ [.indexes, .stats, .dropIndex]) : (callOf ns op).2.place? = some ns := by
  cases op with
  | indexes | stats | dropIndex => simp [CollectionOperation.kind] at h
  | _ => rfl

/-- The call of a planned operation has all its parts, but for the array filters of a
    replacement. -/
theorem parts_callOf (ns : Namespace) {op : CollectionOperation} (h : op.Planned) :
    (callOf ns op).2.parts =
      if op.kind = .replaceOne then { op.parts with arrayFilters := none } else op.parts := by
  -- an option that has no place in the call of its method is not read for the method either
  obtain ⟨d, hd⟩ := h
  cases op with
  | find | findOne | estimatedDocumentCount | distinct | indexes | stats | insertOne | insertMany
  | dropIndex => rfl
  | aggregate => simp [-Option.map_map, CollectionOperation.kind, AggregateOptions.ofSpec]
  | countDocuments => simp [-Option.map_map, CollectionOperation.kind, CountOptions.ofSpec]
  | updateOne | updateMany => simp [-Option.map_map, CollectionOperation.kind, UpdateOptions.ofSpec]
  | replaceOne => simp [-Option.map_map, CollectionOperation.kind, ReplaceOptions.ofSpec]
  | deleteOne | deleteMany =>
    cases hd
    simp [-Option.map_map, CollectionOperation.kind, DeleteOptions.ofSpec, WriteSpec.ofDeletion]
  | findOneAndUpdate => simp [CollectionOperation.kind, FindOneAndUpdateOptions.ofSpec]
  | findOneAndDelete =>
    cases hd
    rfl
  | findOneAndReplace =>
    cases hd
    simp [CollectionOperation.kind, FindOneAndReplaceOptions.ofSpec]
  | createIndex => simp [-Option.map_map, CollectionOperation.kind, IndexOptions.ofSpec]

/-- Whether a call is what an operation on a collection comes to: on every handle of the database it
    is the call that runs, it is made on the collection, unless the driver has only a command for
    the operation, and it has all parts of the operation but the array filters of a replacement. -/
structure Request.Carries {α : Type} (r : Request α) (database collection : String)
    (op : CollectionOperation) : Prop where
  runs : ∀ {κ σ : Type} (driver : Driver κ σ) (handle : Handle κ), handle.database = database →
    driver.Runs handle.client r (handle.run driver (.onCollection collection op))
  place? : op.kind ∉ [.indexes, .stats, .dropIndex] →
    r.place? = some ⟨database, collection⟩
  parts : r.parts =
    if op.kind = .replaceOne then { op.parts with arrayFilters := none } else op.parts

theorem carries_callOf {op : CollectionOperation} (h : op.Planned) (database collection : String) :
    (callOf ⟨database, collection⟩ op).2.Carries database collection op where
  runs driver handle hdatabase := hdatabase ▸ runs_callOf driver handle collection op
  place? := place?_callOf _
  parts := parts_callOf _ h

end Server

namespace Plan

/-- The operation of a plan comes from the method, the arguments and the modifiers of a call. -/
theorem collectionOperation_of_ofCall {now defaultLimit : Int64} {call : Call} {plan : Plan}
    {collection : String} {op : CollectionOperation} (h : ofCall now defaultLimit call = .ok plan)
    (hop : plan.operation = .onCollection collection op) :
    ∃ kind arguments modifiers,
      collectionOperation kind arguments modifiers defaultLimit = .ok op := by
  cases ofCall_eq_ok_iff.1 h with
  | command =>
    unfold command at hop
    split at hop <;> cases hop
  | operation _ _ _ _ hoperation =>
    cases hop
    exact ⟨_, _, _, hoperation⟩

/-- A query that is planned as an operation on a collection comes to one call of the driver, and the
    call has each part that is set in the operation, with its value, but for the array filters of a
    replacement. -/
theorem request_of_ofQuery {now defaultLimit : Int64} {query : List Char} {plan : Plan}
    {collection : String} {op : CollectionOperation}
    (hplan : ofQuery now defaultLimit query = .ok plan)
    (hop : plan.operation = .onCollection collection op) (database : String) :
    ∃ (α : Type) (r : Server.Request α), r.Carries database collection op := by
  obtain ⟨call, -, hcall⟩ := bind_eq_ok.1 hplan
  obtain ⟨kind, arguments, modifiers, h⟩ := collectionOperation_of_ofCall hcall hop
  exact ⟨_, _, Server.carries_callOf (planned_of_collectionOperation h) database collection⟩

/-- The text of the replacement with array filters. -/
def sampleQuery : String :=
  "db.c.replaceOne(\x7b\x7d, \x7ba: 1\x7d, \x7barrayFilters: [\x7bx: 1\x7d]\x7d)"

theorem callOfQuery_sampleQuery : Call.ofQuery sampleQuery.toList = .ok sampleReplacement := by
  rfl

/-- What the replacement is planned as. -/
def sampleOperation : CollectionOperation :=
  .replaceOne [] [("a", .int32 1)] ⟨none, some [[("x", .int32 1)]], none⟩

theorem collectionOperation_sampleReplacement :
    collectionOperation .replaceOne
      [.document [], .document [("a", .int32 1)],
        .document [("arrayFilters", .array [.document [("x", .int32 1)]])]] [] 100 =
      .ok sampleOperation := by
  cbv

theorem exists_plan_sampleQuery : ∃ plan, ofQuery 0 100 sampleQuery.toList = .ok plan ∧
    plan.operation = .onCollection "c" sampleOperation := by
  have hkind : OperationKind.ofCall? sampleReplacement.shape sampleReplacement.method =
      some .replaceOne := by
    decide
  have hchain : Chain.calls 0 sampleReplacement.remainder.toList = .ok [] := rfl
  have hmodifiers : Chain.modifiers [] = [] := rfl
  have hcall : ofCall 0 100 sampleReplacement = _ :=
    ofCall_of_optionsAt? hkind rfl parse_sampleReplacement hchain
  rw [hmodifiers, collectionOperation_sampleReplacement] at hcall
  exact ⟨_, bind_eq_ok.2 ⟨sampleReplacement, callOfQuery_sampleQuery, hcall⟩, rfl⟩

/-- The array filters of the replacement are planned, and the driver's call is one without. -/
theorem request_of_ofQuery_sample : ∃ plan,
    ofQuery 0 100 sampleQuery.toList = .ok plan ∧
      plan.operation = .onCollection "c" sampleOperation ∧
      sampleOperation.parts.arrayFilters = some [[("x", .int32 1)]] ∧
      ∃ (α : Type) (r : Server.Request α), r.Carries "shop" "c" sampleOperation ∧
        r.parts.arrayFilters = none := by
  obtain ⟨plan, hplan, hop⟩ := exists_plan_sampleQuery
  obtain ⟨α, r, hcarries⟩ := request_of_ofQuery hplan hop "shop"
  refine ⟨plan, hplan, hop, rfl, α, r, hcarries, ?_⟩
  rw [hcarries.parts]
  rfl

end Plan

end ShellQuery
