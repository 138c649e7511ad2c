/-
  ShellQuery.Proofs.Options.Listed

  The options of each method: a table of keys with the values that each may have, and the options
  that an object with such entries sets. Absent and null alike set nothing.

  Two kinds of entries are no part of the table and yet are read (`OperationKind.Slips`): the array
  filters of a replacement, and a count that is a double from `2 ^ 63` on, which stands for
  `2 ^ 63 - 1` then.
-/
import ShellQuery.Plan
import ShellQuery.Proofs.Grammar.Acceptance

namespace ShellQuery

/-! ## Values -/

namespace Value

/-- The integer that a number is, if it is one. -/
def integer? : Value → Option Int
  | .int32 n => some n.toInt
  | .int64 n => some n.toInt
  | .double x => if x.isIntegral then some x.truncate else none
  | _ => none

/-- The natural number below a bound that a number is, if it is one. -/
def natural? (bound : Nat) (v : Value) : Option Nat :=
  v.integer?.bind fun n => if 0 ≤ n ∧ n.toNat < bound then some n.toNat else none

def boolean? : Value → Option Bool
  | .bool b => some b
  | _ => none

def string? : Value → Option String
  | .string s => some s
  | _ => none

def object? : Value → Option Document
  | .document d => some d
  | _ => none

/-- The objects that an array holds, if it holds nothing else. -/
def objects? : Value → Option (List Document)
  | .array items => items.mapM object?
  | _ => none

def index? : Value → Option IndexReference
  | .string s => some (.name s)
  | .document d => some (.keys d)
  | _ => none

/-- Whether a word asks for a document as it is after a change. -/
def after? : Value → Option Bool
  | .string s => if s = "after" then some true else if s = "before" then some false else none
  | _ => none

end Value

/-! ## The table -/

/-- The values that an option may have. -/
inductive OptionRange where
  | typed (wanted : OptionType)
  | objects
  /-- The words `before` and `after`. -/
  | moment
deriving DecidableEq

/-- Whether a value is one that an option may have. -/
def OptionRange.includes : OptionRange → Value → Bool
  | .typed .boolean, v => v.boolean?.isSome
  | .typed .count, v => (v.natural? (2 ^ (64 : Nat))).isSome
  | .typed .count32, v => (v.natural? (2 ^ (32 : Nat))).isSome
  | .typed .string, v => v.string?.isSome
  | .typed .object, v => v.object?.isSome
  | .typed .indexReference, v => v.index?.isSome
  | .objects, v => v.objects?.isSome
  | .moment, v => v.after?.isSome

namespace OperationKind

/-- The place of the options among the arguments of a method. -/
def optionsAt? : OperationKind → Option Nat
  | .findOne | .aggregate | .countDocuments | .deleteOne | .deleteMany | .findOneAndDelete
  | .createIndex => some 1
  | .updateOne | .updateMany | .replaceOne | .findOneAndUpdate | .findOneAndReplace => some 2
  | _ => none

/-- The options of a method. -/
def listed : OperationKind → List (String × OptionRange)
  | .findOne => [("projection", .typed .object), ("sort", .typed .object), ("skip", .typed .count)]
  | .aggregate => [("allowDiskUse", .typed .boolean), ("batchSize", .typed .count32),
    ("maxTimeMS", .typed .count), ("comment", .typed .string), ("hint", .typed .indexReference)]
  | .countDocuments => [("limit", .typed .count), ("skip", .typed .count),
    ("hint", .typed .indexReference), ("maxTimeMS", .typed .count)]
  | .updateOne | .updateMany => [("upsert", .typed .boolean), ("arrayFilters", .objects),
    ("hint", .typed .indexReference)]
  | .replaceOne => [("upsert", .typed .boolean), ("hint", .typed .indexReference)]
  | .deleteOne | .deleteMany => [("hint", .typed .indexReference)]
  | .findOneAndUpdate => [("projection", .typed .object), ("sort", .typed .object),
    ("upsert", .typed .boolean), ("returnDocument", .moment),
    ("returnNewDocument", .typed .boolean), ("arrayFilters", .objects)]
  | .findOneAndDelete => [("projection", .typed .object), ("sort", .typed .object)]
  | .findOneAndReplace => [("projection", .typed .object), ("sort", .typed .object),
    ("upsert", .typed .boolean), ("returnDocument", .moment),
    ("returnNewDocument", .typed .boolean)]
  | .createIndex => [("name", .typed .string), ("unique", .typed .boolean),
    ("sparse", .typed .boolean), ("expireAfterSeconds", .typed .count),
    ("partialFilterExpression", .typed .object), ("background", .typed .boolean)]
  | _ => []

/-- The options that a method reads though they are not listed. -/
def unlisted : OperationKind → List (String × OptionRange)
  | .replaceOne => [("arrayFilters", .objects)]
  | _ => []

/-- Whether an entry is an option of a method: its key is listed, and its value is null or one that
    the option may have. -/
def Admits (kind : OperationKind) (entry : String × Value) : Prop :=
  ∃ range, (entry.1, range) ∈ kind.listed ∧ (entry.2 = .null ∨ range.includes entry.2 = true)

/-- Whether an entry is read and is not what it says: an option that is not listed, or a count that
    64 bits with a sign cannot hold. -/
def Slips (kind : OperationKind) (entry : String × Value) : Prop :=
  (∃ range, (entry.1, range) ∈ kind.unlisted ∧
    (entry.2 = .null ∨ range.includes entry.2 = true)) ∨
  ((entry.1, .typed .count) ∈ kind.listed ∧ ∃ n, entry.2.integer? = some n ∧ 2 ^ (63 : Nat) ≤ n)

end OperationKind

/-! ## Options that are set -/

/-- Whether the changed document is asked for: `returnDocument` overrides `returnNewDocument`. -/
def Document.returnsAfter (d : Document) : Bool :=
  ((d.get? "returnDocument").bind Value.after?).getD
    (((d.get? "returnNewDocument").bind Value.boolean?).getD false)

section
variable (count : Value → Option Nat) (d : Document)

/-- The options of a `findOne` that an object sets, where `count` reads its counts. -/
def FindOneSpec.ofOptions : FindOneSpec where
  projection := (d.get? "projection").bind Value.object?
  sort := (d.get? "sort").bind Value.object?
  skip := (d.get? "skip").bind count

def AggregateSpec.ofOptions : AggregateSpec where
  allowDiskUse := (d.get? "allowDiskUse").bind Value.boolean?
  batchSize := (d.get? "batchSize").bind (Value.natural? (2 ^ (32 : Nat)))
  maxTimeMs := (d.get? "maxTimeMS").bind count
  comment := (d.get? "comment").bind Value.string?
  hint := (d.get? "hint").bind Value.index?

def CountSpec.ofOptions : CountSpec where
  limit := (d.get? "limit").bind count
  skip := (d.get? "skip").bind count
  maxTimeMs := (d.get? "maxTimeMS").bind count
  hint := (d.get? "hint").bind Value.index?

/-- The options of an update that an object sets. -/
def WriteSpec.ofOptions : WriteSpec where
  upsert := (d.get? "upsert").bind Value.boolean?
  arrayFilters := (d.get? "arrayFilters").bind Value.objects?
  hint := (d.get? "hint").bind Value.index?

/-- The options of a deletion that an object sets. -/
def WriteSpec.ofDeletion : WriteSpec where
  upsert := none
  arrayFilters := none
  hint := (d.get? "hint").bind Value.index?

/-- The options that an object sets of a method that changes one document and returns it. -/
def FindAndModifySpec.ofOptions : FindAndModifySpec where
  projection := (d.get? "projection").bind Value.object?
  sort := (d.get? "sort").bind Value.object?
  upsert := (d.get? "upsert").bind Value.boolean?
  returnAfter := d.returnsAfter
  arrayFilters := (d.get? "arrayFilters").bind Value.objects?

/-- The options that an object sets of a method that deletes one document and returns it. -/
def FindAndModifySpec.ofDeletion : FindAndModifySpec where
  projection := (d.get? "projection").bind Value.object?
  sort := (d.get? "sort").bind Value.object?
  upsert := none
  returnAfter := false
  arrayFilters := none

def IndexSpec.ofOptions : IndexSpec where
  name := (d.get? "name").bind Value.string?
  unique := (d.get? "unique").bind Value.boolean?
  sparse := (d.get? "sparse").bind Value.boolean?
  expireAfterSeconds := (d.get? "expireAfterSeconds").bind count
  partialFilter := (d.get? "partialFilterExpression").bind Value.object?
  background := (d.get? "background").bind Value.boolean?

/-- An operation with the options that an object sets, where `count` reads its counts. -/
def CollectionOperation.withOptionsBy : CollectionOperation → CollectionOperation
  | .findOne filter _ => .findOne filter (.ofOptions count d)
  | .aggregate pipeline _ => .aggregate pipeline (.ofOptions count d)
  | .countDocuments filter _ => .countDocuments filter (.ofOptions count d)
  | .updateOne filter update _ => .updateOne filter update (.ofOptions d)
  | .updateMany filter update _ => .updateMany filter update (.ofOptions d)
  | .replaceOne filter replacement _ => .replaceOne filter replacement (.ofOptions d)
  | .deleteOne filter _ => .deleteOne filter (.ofDeletion d)
  | .deleteMany filter _ => .deleteMany filter (.ofDeletion d)
  | .findOneAndUpdate filter update _ => .findOneAndUpdate filter update (.ofOptions d)
  | .findOneAndDelete filter _ => .findOneAndDelete filter (.ofDeletion d)
  | .findOneAndReplace filter replacement _ =>
    .findOneAndReplace filter replacement
      { FindAndModifySpec.ofOptions d with arrayFilters := none }
  | .createIndex keys _ => .createIndex keys (.ofOptions count d)
  | op => op

end

/-- An operation with the options that an object sets. -/
def CollectionOperation.withOptions (op : CollectionOperation) (d : Document) :
    CollectionOperation :=
  op.withOptionsBy (Value.natural? (2 ^ (64 : Nat))) d

end ShellQuery
