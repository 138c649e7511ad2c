/-
  ShellQuery.Operation

  Operations with their typed parts, ready to be handed to a store: what runs on a collection, and
  the three commands on the database itself.
-/
import ShellQuery.Operation.Kind
import ShellQuery.Value

namespace ShellQuery

/-- An index, by its name or by its key pattern. -/
inductive IndexReference where
  | name (name : String)
  | keys (keys : Document)

/-- What an update does: a modifier document or an aggregation pipeline. -/
inductive Update where
  | document (d : Document)
  | pipeline (stages : List Document)

/-! ## Options -/

/-- What a `find` returns. -/
structure FindSpec where
  filter : Document
  projection : Option Document
  sort : Option Document
  skip : Option Nat
  limit : Int64

/-- Options of a `findOne`. -/
structure FindOneSpec where
  projection : Option Document
  sort : Option Document
  skip : Option Nat

/-- Options of an aggregation. -/
structure AggregateSpec where
  allowDiskUse : Option Bool
  batchSize : Option Nat
  maxTimeMs : Option Nat
  comment : Option String
  hint : Option IndexReference

/-- Options of a count. -/
structure CountSpec where
  limit : Option Nat
  skip : Option Nat
  maxTimeMs : Option Nat
  hint : Option IndexReference

/-- Options of updates, replacements and deletions. -/
structure WriteSpec where
  upsert : Option Bool
  arrayFilters : Option (List Document)
  hint : Option IndexReference

/-- Options of the methods that change one document and return it. -/
structure FindAndModifySpec where
  projection : Option Document
  sort : Option Document
  upsert : Option Bool
  /-- Whether the document is returned as it is after the change. -/
  returnAfter : Bool
  arrayFilters : Option (List Document)

/-- Options of a new index. -/
structure IndexSpec where
  name : Option String
  unique : Option Bool
  sparse : Option Bool
  expireAfterSeconds : Option Nat
  partialFilter : Option Document
  background : Option Bool

/-! ## Operations -/

/-- What runs on one collection. -/
inductive CollectionOperation where
  | find (spec : FindSpec)
  | findOne (filter : Document) (options : FindOneSpec)
  | aggregate (pipeline : List Document) (options : AggregateSpec)
  | countDocuments (filter : Document) (options : CountSpec)
  | estimatedDocumentCount
  | distinct (field : String) (filter : Document)
  | indexes
  | stats
  | insertOne (document : Document)
  | insertMany (documents : List Document)
  | updateOne (filter : Document) (update : Update) (options : WriteSpec)
  | updateMany (filter : Document) (update : Update) (options : WriteSpec)
  | replaceOne (filter replacement : Document) (options : WriteSpec)
  | deleteOne (filter : Document) (options : WriteSpec)
  | deleteMany (filter : Document) (options : WriteSpec)
  | findOneAndUpdate (filter : Document) (update : Update) (options : FindAndModifySpec)
  | findOneAndDelete (filter : Document) (options : FindAndModifySpec)
  | findOneAndReplace (filter replacement : Document) (options : FindAndModifySpec)
  | createIndex (keys : Document) (options : IndexSpec)
  | dropIndex (index : IndexReference)

/-- Everything that a store can be asked to run. -/
inductive Operation where
  | onCollection (collection : String) (operation : CollectionOperation)
  /-- A command on the default database of the target. -/
  | runCommand (command : Document)
  /-- A command on the `admin` database. -/
  | adminCommand (command : Document)
  /-- The operations in progress, filtered by the given document. -/
  | currentOp (filter : Document)

/-- The kind of an operation on a collection. -/
def CollectionOperation.kind : CollectionOperation → OperationKind
  | .find .. => .find
  | .findOne .. => .findOne
  | .aggregate .. => .aggregate
  | .countDocuments .. => .countDocuments
  | .estimatedDocumentCount => .estimatedDocumentCount
  | .distinct .. => .distinct
  | .indexes => .indexes
  | .stats => .stats
  | .insertOne .. => .insertOne
  | .insertMany .. => .insertMany
  | .updateOne .. => .updateOne
  | .updateMany .. => .updateMany
  | .replaceOne .. => .replaceOne
  | .deleteOne .. => .deleteOne
  | .deleteMany .. => .deleteMany
  | .findOneAndUpdate .. => .findOneAndUpdate
  | .findOneAndDelete .. => .findOneAndDelete
  | .findOneAndReplace .. => .findOneAndReplace
  | .createIndex .. => .createIndex
  | .dropIndex .. => .dropIndex

namespace Operation

/-- The kind of an operation. -/
def kind : Operation → OperationKind
  | .onCollection _ operation => operation.kind
  | .runCommand _ => .runCommand
  | .adminCommand _ => .adminCommand
  | .currentOp _ => .currentOp

/-- The collection that an operation runs on, if it runs on one. -/
def collection? : Operation → Option String
  | .onCollection collection _ => some collection
  | .runCommand _ | .adminCommand _ | .currentOp _ => none

end Operation

end ShellQuery
