/-
  ShellQuery.Operation.Kind

  The closed list of what can be run: the methods of a collection and the three calls on the
  database itself, with their names and classes. `ofCall?` is the allow-list: it depends on the
  shape of a call and the name of its method, and on nothing else.
-/

namespace ShellQuery

/-- The shapes of a primary call. -/
inductive CallShape where
  /-- `db.<collection>.<method>(...)` -/
  | collection
  /-- `db.getCollection("name").<method>(...)` -/
  | getCollection
  /-- `db.runCommand(...)` -/
  | runCommand
  /-- `db.adminCommand(...)` -/
  | adminCommand
  /-- `db.currentOp(...)` -/
  | currentOp
deriving DecidableEq, Repr

namespace CallShape

def all : List CallShape :=
  [.collection, .getCollection, .runCommand, .adminCommand, .currentOp]

/-- The name of a shape in previews. -/
def name : CallShape → String
  | .collection => "collection_method"
  | .getCollection => "get_collection_method"
  | .runCommand => "run_command"
  | .adminCommand => "admin_command"
  | .currentOp => "current_op"

/-- A call on the database itself. A path may follow it in place of chained calls. -/
def isAdmin : CallShape → Bool
  | .collection | .getCollection => false
  | .runCommand | .adminCommand | .currentOp => true

end CallShape

/-- Everything that can be run. -/
inductive OperationKind where
  | find
  | findOne
  | aggregate
  | countDocuments
  | estimatedDocumentCount
  | distinct
  | indexes
  | stats
  | insertOne
  | insertMany
  | updateOne
  | updateMany
  | replaceOne
  | deleteOne
  | deleteMany
  | findOneAndUpdate
  | findOneAndDelete
  | findOneAndReplace
  | createIndex
  | dropIndex
  | runCommand
  | adminCommand
  | currentOp
deriving DecidableEq, Repr

/-- A coarse grouping of operations, for reviewers. -/
inductive OperationClass where
  | read
  | write
  | indexAdmin
  | serverAdmin
deriving DecidableEq, Repr

/-- The name of a class in previews. -/
def OperationClass.name : OperationClass → String
  | .read => "read"
  | .write => "write"
  | .indexAdmin => "index_admin"
  | .serverAdmin => "server_admin"

namespace OperationKind

/-- The method of the call that an operation comes from. -/
def name : OperationKind → String
  | .find => "find"
  | .findOne => "findOne"
  | .aggregate => "aggregate"
  | .countDocuments => "countDocuments"
  | .estimatedDocumentCount => "estimatedDocumentCount"
  | .distinct => "distinct"
  | .indexes => "indexes"
  | .stats => "stats"
  | .insertOne => "insertOne"
  | .insertMany => "insertMany"
  | .updateOne => "updateOne"
  | .updateMany => "updateMany"
  | .replaceOne => "replaceOne"
  | .deleteOne => "deleteOne"
  | .deleteMany => "deleteMany"
  | .findOneAndUpdate => "findOneAndUpdate"
  | .findOneAndDelete => "findOneAndDelete"
  | .findOneAndReplace => "findOneAndReplace"
  | .createIndex => "createIndex"
  | .dropIndex => "dropIndex"
  | .runCommand => "runCommand"
  | .adminCommand => "adminCommand"
  | .currentOp => "currentOp"

/-- The class of an operation. -/
def opClass : OperationKind → OperationClass
  | .find | .findOne | .aggregate | .countDocuments | .estimatedDocumentCount | .distinct
  | .indexes | .stats => .read
  | .insertOne | .insertMany | .updateOne | .updateMany | .replaceOne | .deleteOne | .deleteMany
  | .findOneAndUpdate | .findOneAndDelete | .findOneAndReplace => .write
  | .createIndex | .dropIndex => .indexAdmin
  | .runCommand | .adminCommand | .currentOp => .serverAdmin

/-- The methods that a collection has, in the order in which they are offered. -/
def collectionMethods : List OperationKind :=
  [.find, .findOne, .aggregate, .countDocuments, .estimatedDocumentCount, .distinct, .indexes,
    .stats, .insertOne, .insertMany, .updateOne, .updateMany, .replaceOne, .deleteOne,
    .deleteMany, .findOneAndUpdate, .findOneAndDelete, .findOneAndReplace, .createIndex,
    .dropIndex]

/-- The operation that a call of the given shape and method stands for, if it is allowed. -/
def ofCall? (shape : CallShape) (method : String) : Option OperationKind :=
  match shape with
  | .runCommand => some .runCommand
  | .adminCommand => some .adminCommand
  | .currentOp => some .currentOp
  | .collection | .getCollection => collectionMethods.find? (·.name = method)

end OperationKind

end ShellQuery
