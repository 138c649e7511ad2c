/-
  ShellQuery.Plan

  From a query text to the operation it stands for. The shape and the method of the call decide
  the kind of the operation; the arguments fill its parts by position, and the chained modifiers
  of a `find` set its limit, skip, sort and projection, the last one of each name.
-/
import ShellQuery.Call
import ShellQuery.Operation.Options
import ShellQuery.Path

namespace ShellQuery

/-- The number of documents that a `find` without a limit returns at most. -/
def defaultFindLimit : Int64 := 100

/-- Everything needed to run a query: the operation and the shape of its result. -/
structure Plan where
  call : Call
  operation : Operation
  /-- The modifiers as written, with those that have no effect. -/
  modifiers : List ChainedModifier
  /-- The path into the response of a command. -/
  postProcess : Option Path
  /-- Whether a `find` has no limit of its own. -/
  defaultLimitApplied : Bool

namespace Plan

/-! ## Find -/

/-- The error of a modifier with a value of another type. -/
def modifierError (m : ChainedModifier) : QueryError :=
  .argument ("." ++ m.modifier.name ++ "(" ++ m.value.shown ++ ")") (.badModifier m.modifier)

/-- A `find` with one more modifier. -/
def modify (spec : FindSpec) (m : ChainedModifier) : Except QueryError FindSpec :=
  match m.modifier, m.value with
  | .limit, v =>
    match v.toInt64? with
    | some n => .ok { spec with limit := n }
    | none => .error (modifierError m)
  | .skip, v =>
    match OptionReader.count? (2 ^ (64 : Nat)) v with
    | some n => .ok { spec with skip := some n }
    | none => .error (modifierError m)
  | .sort, .document d => .ok { spec with sort := some d }
  | .project, .document d => .ok { spec with projection := some d }
  | _, _ => .error (modifierError m)

/-- A `find` from its arguments and modifiers. An empty projection is none. -/
def findSpec (arguments : List Value) (modifiers : List ChainedModifier) (defaultLimit : Int64) :
    Except QueryError FindSpec := do
  let filter ← OperationKind.find.optionalDocument arguments[0]? "filter"
  let projection ← OperationKind.find.optionalDocument arguments[1]? "projection"
  let spec : FindSpec := {
    filter
    projection := if projection.isEmpty then none else some projection
    sort := none
    skip := none
    limit := defaultLimit }
  modifiers.foldlM modify spec

/-! ## Operations on a collection -/

/-- Reads the options object at a position. -/
def options {α : Type} (kind : OperationKind) (arguments : List Value) (position : Nat)
    (reader : OptionReader α) : Except QueryError α := do
  let d ← kind.optionalDocument arguments[position]? "options"
  OptionReader.run kind reader d

/-- The operation that a method of a collection stands for with the given arguments. -/
def collectionOperation (kind : OperationKind) (arguments : List Value)
    (modifiers : List ChainedModifier) (defaultLimit : Int64) :
    Except QueryError CollectionOperation :=
  let filter := kind.optionalDocument arguments[0]? "filter"
  match kind with
  | .find => do
    return .find (← findSpec arguments modifiers defaultLimit)
  | .findOne => do
    return .findOne (← filter) (← options kind arguments 1 (OptionReader.findOneSpec kind))
  | .aggregate => do
    let pipeline ← kind.documentArray arguments[0]? "pipeline"
    let options ← options kind arguments 1 (OptionReader.aggregateSpec kind)
    return .aggregate (pipeline.getD []) options
  | .countDocuments => do
    return .countDocuments (← filter) (← options kind arguments 1 (OptionReader.countSpec kind))
  | .estimatedDocumentCount => .ok .estimatedDocumentCount
  | .distinct =>
    match arguments.head? with
    | some (.string field) =>
      if field = "" then .error (kind.missing .fieldName)
      else do
        return .distinct field (← kind.optionalDocument arguments[1]? "filter")
    | _ => .error (kind.missing .fieldName)
  | .indexes => .ok .indexes
  | .stats => .ok .stats
  | .insertOne => do
    return .insertOne (← kind.requiredDocument arguments[0]? .document)
  | .insertMany => do
    match ← kind.documentArray arguments[0]? "documents" with
    | some documents => return .insertMany documents
    | none => throw (kind.missing .documents)
  | .updateOne => do
    let filter ← filter
    let update ← kind.update arguments[1]?
    return .updateOne filter update (← options kind arguments 2 (OptionReader.updateSpec kind))
  | .updateMany => do
    let filter ← filter
    let update ← kind.update arguments[1]?
    return .updateMany filter update (← options kind arguments 2 (OptionReader.updateSpec kind))
  | .replaceOne => do
    let filter ← filter
    let replacement ← kind.requiredDocument arguments[1]? .replacement
    return .replaceOne filter replacement
      (← options kind arguments 2 (OptionReader.updateSpec kind))
  | .deleteOne => do
    return .deleteOne (← filter) (← options kind arguments 1 (OptionReader.deleteSpec kind))
  | .deleteMany => do
    return .deleteMany (← filter) (← options kind arguments 1 (OptionReader.deleteSpec kind))
  | .findOneAndUpdate => do
    let filter ← filter
    let update ← kind.update arguments[1]?
    return .findOneAndUpdate filter update
      (← options kind arguments 2 (OptionReader.findOneAndUpdateSpec kind))
  | .findOneAndDelete => do
    return .findOneAndDelete (← filter)
      (← options kind arguments 1 (OptionReader.findOneAndDeleteSpec kind))
  | .findOneAndReplace => do
    let filter ← filter
    let replacement ← kind.requiredDocument arguments[1]? .replacement
    return .findOneAndReplace filter replacement
      (← options kind arguments 2 (OptionReader.findOneAndReplaceSpec kind))
  | .createIndex => do
    let keys ← kind.requiredDocument arguments[0]? .indexKeys
    if keys.isEmpty then throw (kind.missing .oneIndexKey)
    return .createIndex keys (← options kind arguments 1 (OptionReader.indexSpec kind))
  | .dropIndex =>
    match arguments.head? with
    | some (.string name) =>
      if name = "" then .error (kind.missing .index) else .ok (.dropIndex (.name name))
    | some (.document (field :: fields)) => .ok (.dropIndex (.keys (field :: fields)))
    | _ => .error (kind.missing .index)
  | .runCommand | .adminCommand | .currentOp => .error (.unsupported kind.name)

/-! ## Commands -/

/-- The command document of a call on the database. `currentOp` also takes whether idle sessions
    are to be listed. -/
def commandDocument (kind : OperationKind) (arguments : List Value) :
    Except QueryError Document :=
  match kind, arguments.head? with
  | .currentOp, some (.bool true) => .ok [("idleSessions", .bool true)]
  | .currentOp, some (.bool false) => .ok []
  | kind, argument => kind.optionalDocument argument "command"

/-- The operation of a call on the database. -/
def command (kind : OperationKind) (d : Document) : Operation :=
  match kind with
  | .runCommand => .runCommand d
  | .adminCommand => .adminCommand d
  | _ => .currentOp d

/-! ## Plans -/

variable (now : Int64) (defaultLimit : Int64)

/-- The plan of a call that has been taken apart. -/
def ofCall (call : Call) : Except QueryError Plan :=
  match OperationKind.ofCall? call.shape call.method with
  | none => .error (.unsupported call.method)
  | some kind => do
    let arguments ← parseShellArguments now call.arguments.toList
    if call.shape.isAdmin then
      let path ← Path.parse call.remainder.toList
      let d ← commandDocument kind arguments
      return {
        call
        operation := command kind d
        modifiers := []
        postProcess := if path.isEmpty then none else some path
        defaultLimitApplied := false }
    else
      let calls ← Chain.calls now call.remainder.toList
      let modifiers := Chain.modifiers calls
      let operation ← collectionOperation kind arguments modifiers defaultLimit
      return {
        call
        operation := .onCollection (call.collection.getD "") operation
        modifiers
        postProcess := none
        defaultLimitApplied := kind = .find && modifiers.all (·.modifier ≠ .limit) }

/-- The plan of a query text. -/
def ofQuery (query : List Char) : Except QueryError Plan := do
  ofCall now defaultLimit (← Call.ofQuery query)

end Plan

end ShellQuery
