/-
  ShellQuery.Result

  What running a query comes to: the data that the store returned, or the reason for a failure. A
  result is shaped by the path of its plan and shown as JSON.
-/
import ShellQuery.Preview

namespace ShellQuery

/-! ## Failures -/

/-- Why the connection to a target fails. -/
inductive Unavailability where
  | unknownTarget (id : String)
  | inactive
  /-- The connection took longer than the given milliseconds. -/
  | timedOut (millis : Nat)
  /-- The store refused it. -/
  | refused (message : String)
deriving DecidableEq, Repr

/-- The wording of an unavailability. -/
def Unavailability.message : Unavailability → String
  | .unknownTarget id => "Unknown target: " ++ id
  | .inactive => "target is not active"
  | .timedOut millis => "connect timed out after " ++ toString millis ++ " ms"
  | .refused message => message

/-- Why a call to a target fails. -/
inductive ExecutionError where
  | query (e : QueryError)
  | unavailable (target : String) (reason : Unavailability)
  | store (message : String)
  /-- The store took longer than the given milliseconds. -/
  | deadlineExceeded (millis : Nat)
deriving DecidableEq, Repr

namespace ExecutionError

/-- The group that a failure belongs to. -/
def kind : ExecutionError → ErrorKind
  | .query e => e.kind
  | .unavailable _ _ => .targetUnavailable
  | .store _ | .deadlineExceeded _ => .storeExecution

/-- The message of a failure. -/
def message : ExecutionError → String
  | .query e => e.message
  | .unavailable target reason => "Target '" ++ target ++ "' unavailable: " ++ reason.message
  | .store message => message
  | .deadlineExceeded millis => "Query exceeded its deadline of " ++ toString millis ++ " ms"

/-- Whether the failure came before anything was sent. -/
def isPreNetwork : ExecutionError → Bool
  | .query _ => true
  | .unavailable _ _ | .store _ | .deadlineExceeded _ => false

end ExecutionError

/-! ## Results -/

/-- What running a query comes to. -/
inductive ExecutionResult where
  | success (data : Json) (elapsedMillis rowCount : Nat)
  | failure (kind : ErrorKind) (message : String)

/-- The number of rows that a value counts as: the items of an array, else one. -/
def Value.rowCount : Value → Nat
  | .array items => items.length
  | _ => 1

namespace ExecutionResult

/-- The result of a value that was returned after some milliseconds. -/
def ofValue (v : Value) (elapsedMillis : Nat) : ExecutionResult :=
  .success v.relaxed elapsedMillis v.rowCount

/-- The result of a failure. -/
def ofError (e : ExecutionError) : ExecutionResult :=
  .failure e.kind e.message

def isSuccess : ExecutionResult → Bool
  | .success .. => true
  | .failure .. => false

/-- A result as JSON. -/
def toJson : ExecutionResult → Json
  | .success data elapsedMillis rowCount =>
    .object [
      ("status", .string "success"),
      ("data", data),
      ("elapsed_millis", .int elapsedMillis),
      ("row_count", .int rowCount)]
  | .failure kind message =>
    .object [
      ("status", .string "failure"),
      ("error_kind", .string kind.name),
      ("message", .string message)]

end ExecutionResult

/-! ## Shaping -/

/-- The value that a plan makes of what the store returned: what its path leads to, or null; the
    list of operations of a `currentOp` without a path; anything else as it is. -/
def Plan.shape (plan : Plan) (returned : Value) : Value :=
  match plan.postProcess, plan.operation, returned with
  | some path, _, _ => (path.follow? returned).getD .null
  | none, .currentOp _, .document response => (Document.get? "inprog" response).getD (.array [])
  | none, _, _ => returned

end ShellQuery
