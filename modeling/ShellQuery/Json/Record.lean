/-
  ShellQuery.Json.Record

  Records in JSON files. A record with named fields is written as a map, in which unknown members
  are ignored and a field must not come twice, or as the list of its fields in order, which may end
  where no field follows that the record cannot do without.
-/
import ShellQuery.Json.Reader

namespace ShellQuery.Json

/-- A field of a record. -/
structure Field (α : Type) where
  /-- The name that messages use. -/
  name : String
  otherNames : List String := []
  /-- Whether the record cannot do without it. -/
  required : Bool := false
  /-- Reads the value of the field and puts it into the record. -/
  put : α → Reader α

/-- What a record is made of. -/
structure RecordType (α : Type) where
  title : String
  /-- The record before anything was read. -/
  blank : α
  fields : List (Field α)

namespace RecordType

open Reader

variable {α : Type}

/-- The field of the given name. -/
def field? (r : RecordType α) (key : String) : Option (Field α) :=
  r.fields.find? fun f => f.name = key || f.otherNames.contains key

/-! ## Maps -/

/-- The fault of a field that comes twice. Its place is before the colon, or after the brace that
    stands there instead. -/
def duplicate (name : String) : Reader (α × List String) := fun cs =>
  match skipSpace cs with
  | '}' :: cs => faultAt (.duplicateField name) cs
  | cs => faultAt (.duplicateField name) cs

/-- Reads what follows a key. The names of the fields that were read are kept. -/
def member (r : RecordType α) (s : α × List String) (key : String) :
    Reader (α × List String) :=
  match r.field? key with
  | none => do
    colon
    ignored
    return s
  | some f =>
    if s.2.contains f.name then duplicate f.name
    else do
      colon
      return (← f.put s.1, f.name :: s.2)

/-- The first field that a record cannot do without and that was not read. -/
def missing? (r : RecordType α) (names : List String) : Option (Field α) :=
  r.fields.find? fun f => f.required && !names.contains f.name

/-- Reads a record after its opening brace. -/
def ofMap (r : RecordType α) : Reader α := fun cs => do
  let ((a, names), rest) ← mapBody r.member (r.blank, []) cs
  match r.missing? names with
  | some f => faultAt (.missingField f.name) rest.tail
  | none => .ok (a, rest.tail)

/-! ## Lists -/

/-- The fault of a list that ends before the field at the given index. -/
def tooShort (r : RecordType α) (index : Nat) : Reader α := fun cs =>
  faultAt (.wrongLength index r.title r.fields.length) cs.tail

/-- Reads fields in order, the first of which is at the given index. Where the list ends, the
    others must not be required. -/
def items (r : RecordType α) (index : Nat) (a : α) : List (Field α) → Reader α
  | [] => return a
  | f :: rest => do
    if ← nextItem (index = 0) then r.items (index + 1) (← f.put a) rest
    else match (f :: rest).findIdx? (·.required) with
      | some i => r.tooShort (index + i)
      | none => return a

/-- Reads a record after its opening bracket. -/
def ofList (r : RecordType α) : Reader α := do
  let a ← r.items 0 r.blank r.fields
  endOfList
  return a

/-- Reads a record. -/
def read (r : RecordType α) : Reader α := fun cs =>
  match skipSpace cs with
  | '{' :: cs => r.ofMap cs
  | '[' :: cs => r.ofList cs
  | cs => mismatch (.record r.title) cs

end RecordType

end ShellQuery.Json
