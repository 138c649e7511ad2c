/-
  ShellQuery.Server.Options

  The options that a driver's calls take, as far as they are ever set, each made of the options of an
  operation. What is not set is left to the server.
-/
import ShellQuery.Operation

namespace ShellQuery.Server

/-! ## Parts of options -/

/-- A length of time: seconds, and nanoseconds beyond them. -/
structure Duration where
  seconds : Nat
  nanos : Nat := 0
deriving DecidableEq, Repr

namespace Duration

def ofSeconds (n : Nat) : Duration :=
  { seconds := n }

def ofMillis (n : Nat) : Duration :=
  ⟨n / 1000, n % 1000 * 1000000⟩

/-- The whole milliseconds of a length of time. -/
def millis (d : Duration) : Nat :=
  d.seconds * 1000 + d.nanos / 1000000

@[simp] theorem millis_ofSeconds (n : Nat) : (ofSeconds n).millis = n * 1000 := by
  simp [ofSeconds, millis]

@[simp] theorem millis_ofMillis (n : Nat) : (ofMillis n).millis = n := by
  simp only [ofMillis, millis]
  omega

end Duration

/-- An index that a call is to use. -/
inductive Hint where
  | name (name : String)
  | keys (keys : Document)

def Hint.ofIndex : IndexReference → Hint
  | .name s => .name s
  | .keys d => .keys d

/-- What an update does to a document. -/
inductive Modifications where
  | document (d : Document)
  | pipeline (stages : List Document)

def Modifications.ofUpdate : Update → Modifications
  | .document d => .document d
  | .pipeline stages => .pipeline stages

/-- Which document a call that changes one returns. -/
inductive ReturnDocument where
  | before
  | after
deriving DecidableEq, Repr

def ReturnDocument.ofSpec (spec : FindAndModifySpec) : ReturnDocument :=
  if spec.returnAfter then .after else .before

/-! ## Options of calls that read -/

structure FindOptions where
  projection : Option Document := none
  sort : Option Document := none
  skip : Option Nat := none
  limit : Option Int64 := none

def FindOptions.ofSpec (spec : FindSpec) : FindOptions where
  projection := spec.projection
  sort := spec.sort
  skip := spec.skip
  limit := some spec.limit

structure FindOneOptions where
  projection : Option Document := none
  sort : Option Document := none
  skip : Option Nat := none

def FindOneOptions.ofSpec (spec : FindOneSpec) : FindOneOptions where
  projection := spec.projection
  sort := spec.sort
  skip := spec.skip

structure AggregateOptions where
  allowDiskUse : Option Bool := none
  batchSize : Option Nat := none
  maxTime : Option Duration := none
  comment : Option Value := none
  hint : Option Hint := none

def AggregateOptions.ofSpec (spec : AggregateSpec) : AggregateOptions where
  allowDiskUse := spec.allowDiskUse
  batchSize := spec.batchSize
  maxTime := spec.maxTimeMs.map .ofMillis
  comment := spec.comment.map .string
  hint := spec.hint.map .ofIndex

structure CountOptions where
  limit : Option Nat := none
  skip : Option Nat := none
  maxTime : Option Duration := none
  hint : Option Hint := none

def CountOptions.ofSpec (spec : CountSpec) : CountOptions where
  limit := spec.limit
  skip := spec.skip
  maxTime := spec.maxTimeMs.map .ofMillis
  hint := spec.hint.map .ofIndex

/-! ## Options of calls that write -/

structure UpdateOptions where
  upsert : Option Bool := none
  arrayFilters : Option (List Document) := none
  hint : Option Hint := none

def UpdateOptions.ofSpec (spec : WriteSpec) : UpdateOptions where
  upsert := spec.upsert
  arrayFilters := spec.arrayFilters
  hint := spec.hint.map .ofIndex

/-- Options of a replacement, which has no place for array filters. -/
structure ReplaceOptions where
  upsert : Option Bool := none
  hint : Option Hint := none

def ReplaceOptions.ofSpec (spec : WriteSpec) : ReplaceOptions where
  upsert := spec.upsert
  hint := spec.hint.map .ofIndex

structure DeleteOptions where
  hint : Option Hint := none

def DeleteOptions.ofSpec (spec : WriteSpec) : DeleteOptions where
  hint := spec.hint.map .ofIndex

structure FindOneAndUpdateOptions where
  projection : Option Document := none
  sort : Option Document := none
  upsert : Option Bool := none
  arrayFilters : Option (List Document) := none
  returnDocument : Option ReturnDocument := none

def FindOneAndUpdateOptions.ofSpec (spec : FindAndModifySpec) : FindOneAndUpdateOptions where
  projection := spec.projection
  sort := spec.sort
  upsert := spec.upsert
  arrayFilters := spec.arrayFilters
  returnDocument := some (.ofSpec spec)

structure FindOneAndDeleteOptions where
  projection : Option Document := none
  sort : Option Document := none

def FindOneAndDeleteOptions.ofSpec (spec : FindAndModifySpec) : FindOneAndDeleteOptions where
  projection := spec.projection
  sort := spec.sort

structure FindOneAndReplaceOptions where
  projection : Option Document := none
  sort : Option Document := none
  upsert : Option Bool := none
  returnDocument : Option ReturnDocument := none

def FindOneAndReplaceOptions.ofSpec (spec : FindAndModifySpec) : FindOneAndReplaceOptions where
  projection := spec.projection
  sort := spec.sort
  upsert := spec.upsert
  returnDocument := some (.ofSpec spec)

structure IndexOptions where
  name : Option String := none
  unique : Option Bool := none
  sparse : Option Bool := none
  expireAfter : Option Duration := none
  partialFilterExpression : Option Document := none
  background : Option Bool := none

def IndexOptions.ofSpec (spec : IndexSpec) : IndexOptions where
  name := spec.name
  unique := spec.unique
  sparse := spec.sparse
  expireAfter := spec.expireAfterSeconds.map .ofSeconds
  partialFilterExpression := spec.partialFilter
  background := spec.background

end ShellQuery.Server
