/-
  ShellQuery.Preview

  What a query would run, for reviewers: derived from the plan alone, and shown as JSON.
-/
import ShellQuery.Plan
import ShellQuery.Value.Relaxed

namespace ShellQuery

/-- What a query would run. -/
structure Preview where
  shape : CallShape
  collection : Option String
  kind : OperationKind
  opClass : OperationClass
  modifiers : List (Modifier × Json)
  /-- The text of the path into the response. -/
  postProcess : Option String
  defaultLimitApplied : Bool

/-- The preview of a plan. -/
def Plan.preview (plan : Plan) : Preview where
  shape := plan.call.shape
  collection := plan.operation.collection?
  kind := plan.operation.kind
  opClass := plan.operation.kind.opClass
  modifiers := plan.modifiers.map fun m => (m.modifier, m.value.relaxed)
  postProcess := plan.postProcess.map Path.text
  defaultLimitApplied := plan.defaultLimitApplied

/-- The preview of a query text. -/
def inspect (now defaultLimit : Int64) (query : List Char) : Except QueryError Preview :=
  (Plan.ofQuery now defaultLimit query).map Plan.preview

/-- A preview as JSON. -/
def Preview.toJson (p : Preview) : Json :=
  .object [
    ("target_kind", .string p.shape.name),
    ("collection", .ofString? p.collection),
    ("method", .string p.kind.name),
    ("class", .string p.opClass.name),
    ("modifiers", .array (p.modifiers.map fun (m, v) =>
      .object [("method", .string m.name), ("value", v)])),
    ("post_process", .ofString? p.postProcess),
    ("default_limit_applied", .bool p.defaultLimitApplied)]

end ShellQuery
