/-
  ShellQuery.Operation.Options

  Typed reading of the arguments of a method: documents and lists at their positions, and the
  entries of an options object. Reading an entry takes it out of the object, absent and null alike
  mean not set, and what is left over at the end is an error.
-/
import ShellQuery.Error
import ShellQuery.Operation
import ShellQuery.Value.Shown

namespace ShellQuery

/-! ## Arguments -/

namespace OperationKind

variable (kind : OperationKind)

/-- The error of a method that lacks something. -/
def missing (what : Requirement) : QueryError :=
  .argument kind.name (.missing kind what)

/-- An argument that is an object, or absent or null for the empty one. -/
def optionalDocument (argument : Option Value) (name : String) : Except QueryError Document :=
  match argument with
  | none | some .null => .ok []
  | some (.document d) => .ok d
  | some v => .error (.argument v.shown (.notObject kind name))

/-- An argument that must be an object. -/
def requiredDocument (argument : Option Value) (what : Requirement) :
    Except QueryError Document :=
  match argument with
  | some (.document d) => .ok d
  | _ => .error (kind.missing what)

/-- The documents that an array holds. -/
def documentsOf (name : String) : List Value → Except QueryError (List Document)
  | [] => .ok []
  | .document d :: rest => (documentsOf name rest).map (d :: ·)
  | v :: _ => .error (.argument v.shown (.notObjects kind name))

/-- An argument that is an array of objects, or absent or null for none. -/
def documentArray (argument : Option Value) (name : String) :
    Except QueryError (Option (List Document)) :=
  match argument with
  | none | some .null => .ok none
  | some (.array items) => (kind.documentsOf name items).map some
  | some v => .error (.argument v.shown (.notArray kind name))

/-- An argument that is an update: an object with fields, or an array of objects. -/
def update (argument : Option Value) : Except QueryError Update :=
  match argument with
  | some (.document (field :: fields)) => .ok (.document (field :: fields))
  | some (.array items) => (kind.documentsOf "update pipeline" items).map .pipeline
  | _ => .error (kind.missing .update)

end OperationKind

/-! ## Option objects -/

/-- Reading with an options object at hand, from which entries are taken. -/
abbrev OptionReader : Type → Type :=
  StateT Document (Except QueryError)

namespace OptionReader

/-- Takes the entry of a key out of the object; null counts as absent. -/
def entry (key : String) : OptionReader (Option Value) := fun d =>
  match d.get? key with
  | some .null => .ok (none, d.erase key)
  | found => .ok (found, d.erase key)

variable (kind : OperationKind) (key : String)

/-- The error of an option with a value of another type. -/
def wrongType (wanted : OptionType) (v : Value) : QueryError :=
  .argument (key ++ ": " ++ v.shown) (.badOption kind key wanted)

/-- Takes an option whose values are read by `read?`. -/
def typed {α : Type} (wanted : OptionType) (read? : Value → Option α) :
    OptionReader (Option α) := do
  match ← entry key with
  | none => return none
  | some v =>
    match read? v with
    | some a => return some a
    | none => throw (wrongType kind key wanted v)

/-- The natural number below `bound` that a value is. -/
def count? (bound : Nat) (v : Value) : Option Nat := do
  let n ← v.toInt64?
  if 0 ≤ n.toInt ∧ n.toInt.toNat < bound then some n.toInt.toNat else none

def boolean : OptionReader (Option Bool) :=
  typed kind key .boolean fun
    | .bool b => some b
    | _ => none

def count : OptionReader (Option Nat) :=
  typed kind key .count (count? (2 ^ (64 : Nat)))

def count32 : OptionReader (Option Nat) :=
  typed kind key .count32 (count? (2 ^ (32 : Nat)))

def string : OptionReader (Option String) :=
  typed kind key .string fun
    | .string s => some s
    | _ => none

def document : OptionReader (Option Document) :=
  typed kind key .object fun
    | .document d => some d
    | _ => none

def index : OptionReader (Option IndexReference) :=
  typed kind key .indexReference fun
    | .string s => some (.name s)
    | .document d => some (.keys d)
    | _ => none

def documents : OptionReader (Option (List Document)) := do
  kind.documentArray (← entry key) key

/-- Reads an options object with `reader`, which must take every entry. -/
def run {α : Type} (reader : OptionReader α) (options : Document) : Except QueryError α := do
  let (result, rest) ← StateT.run reader options
  match rest with
  | [] => return result
  | (key, _) :: _ => throw (.argument key (.unknownOption kind key))

/-! ## The options of each method -/

def findOneSpec : OptionReader FindOneSpec := do
  let projection ← document kind "projection"
  let sort ← document kind "sort"
  let skip ← count kind "skip"
  return { projection, sort, skip }

def aggregateSpec : OptionReader AggregateSpec := do
  let allowDiskUse ← boolean kind "allowDiskUse"
  let batchSize ← count32 kind "batchSize"
  let maxTimeMs ← count kind "maxTimeMS"
  let comment ← string kind "comment"
  let hint ← index kind "hint"
  return { allowDiskUse, batchSize, maxTimeMs, comment, hint }

def countSpec : OptionReader CountSpec := do
  let limit ← count kind "limit"
  let skip ← count kind "skip"
  let maxTimeMs ← count kind "maxTimeMS"
  let hint ← index kind "hint"
  return { limit, skip, maxTimeMs, hint }

/-- Options of updates and replacements. -/
def updateSpec : OptionReader WriteSpec := do
  let upsert ← boolean kind "upsert"
  let arrayFilters ← documents kind "arrayFilters"
  let hint ← index kind "hint"
  return { upsert, arrayFilters, hint }

def deleteSpec : OptionReader WriteSpec := do
  let hint ← index kind "hint"
  return { upsert := none, arrayFilters := none, hint }

/-- Whether the changed document is asked for: `returnDocument` says so in words and overrides
    `returnNewDocument`. -/
def returnAfter : OptionReader Bool := do
  let returnNew ← boolean kind "returnNewDocument"
  match ← string kind "returnDocument" with
  | none => return returnNew.getD false
  | some word =>
    if word = "after" then return true
    else if word = "before" then return false
    else throw (.argument word .badReturnDocument)

def findOneAndUpdateSpec : OptionReader FindAndModifySpec := do
  let projection ← document kind "projection"
  let sort ← document kind "sort"
  let upsert ← boolean kind "upsert"
  let returnAfter ← returnAfter kind
  let arrayFilters ← documents kind "arrayFilters"
  return { projection, sort, upsert, returnAfter, arrayFilters }

def findOneAndReplaceSpec : OptionReader FindAndModifySpec := do
  let projection ← document kind "projection"
  let sort ← document kind "sort"
  let upsert ← boolean kind "upsert"
  let returnAfter ← returnAfter kind
  return { projection, sort, upsert, returnAfter, arrayFilters := none }

def findOneAndDeleteSpec : OptionReader FindAndModifySpec := do
  let projection ← document kind "projection"
  let sort ← document kind "sort"
  return { projection, sort, upsert := none, returnAfter := false, arrayFilters := none }

def indexSpec : OptionReader IndexSpec := do
  let name ← string kind "name"
  let unique ← boolean kind "unique"
  let sparse ← boolean kind "sparse"
  let expireAfterSeconds ← count kind "expireAfterSeconds"
  let partialFilter ← document kind "partialFilterExpression"
  let background ← boolean kind "background"
  return { name, unique, sparse, expireAfterSeconds, partialFilter, background }

end OptionReader

end ShellQuery
