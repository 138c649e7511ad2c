/-
  ShellQuery.Server.Handle

  Handles of a server: how they are opened, which calls of the driver run an operation, and what the
  answers come to.
-/
import ShellQuery.Server.Driver

namespace ShellQuery.Server

/-! ## Results -/

/-- Documents as a value. -/
def documents (ds : List Document) : Value :=
  .array (ds.map .document)

/-- A document that may be missing as a value. -/
def found : Option Document → Value
  | some d => .document d
  | none => .null

/-- A number of documents as a value. -/
def count (n : Nat) : Value :=
  .int64 (.ofNat n)

/-- The first batch in the reply to a command, or the reply without its cursor where that is none. -/
def firstBatch (reply : Document) : Value :=
  match reply.get? "cursor" with
  | some (.document cursor) => (Document.get? "firstBatch" cursor).getD (.array [])
  | _ => .document (reply.erase "cursor")

def inserted (id : Value) : Value :=
  .document [("acknowledged", .bool true), ("insertedId", id)]

/-- Inserted documents, in the order of their places. -/
def insertedMany (ids : List (Nat × Value)) : Value :=
  let ids := ids.mergeSort fun a b => a.1 ≤ b.1
  let ids := ids.foldl (fun d (i, id) => Document.insert (toString i) id d) []
  .document [
    ("acknowledged", .bool true),
    ("insertedCount", count ids.length),
    ("insertedIds", .document ids)]

def deleted (n : Nat) : Value :=
  .document [("acknowledged", .bool true), ("deletedCount", count n)]

def UpdateResult.value (r : UpdateResult) : Value :=
  .document [
    ("acknowledged", .bool true),
    ("matchedCount", count r.matched),
    ("modifiedCount", count r.modified),
    ("upsertedCount", count (if r.upsertedId.isSome then 1 else 0)),
    ("upsertedId", r.upsertedId.getD .null)]

/-! ## Handles -/

/-- A client with its default database. -/
structure Handle (κ : Type) where
  client : κ
  database : String
  closed : Bool := false

/-- The database that a server keeps its own affairs in. -/
def adminDatabase : String := "admin"

/-- An index as a part of a command. -/
def indexValue : IndexReference → Value
  | .name s => .string s
  | .keys d => .document d

namespace Handle

variable {κ σ : Type} (driver : Driver κ σ) (handle : Handle κ)

def ping : Dialogue σ Unit := do
  let _ ← driver.call handle.client (.runCommand adminDatabase [("ping", .int32 1)])

/-- Whether the server answers. A handle that was closed is dead without any need to ask. -/
def isAlive (state : σ) : σ × Bool :=
  if handle.closed then (state, false)
  else
    let (state, answer) := (handle.ping driver).hold state
    (state, answer.result.toOption.isSome)

/-- Runs an operation on a collection. -/
def runOnCollection (collection : String) (op : CollectionOperation) : Dialogue σ Value := do
  let ns : Namespace := ⟨handle.database, collection⟩
  let call {α : Type} (r : Request α) : Dialogue σ α := driver.call handle.client r
  match op with
  | .find spec =>
    let cursor ← call (.find ns spec.filter (.ofSpec spec))
    return documents (← call (.collect cursor))
  | .findOne filter options => return found (← call (.findOne ns filter (.ofSpec options)))
  | .aggregate pipeline options =>
    let cursor ← call (.aggregate ns pipeline (.ofSpec options))
    return documents (← call (.collect cursor))
  | .countDocuments filter options =>
    return count (← call (.countDocuments ns filter (.ofSpec options)))
  | .estimatedDocumentCount => return count (← call (.estimatedDocumentCount ns))
  | .distinct field filter => return .array (← call (.distinct ns field filter))
  | .indexes =>
    return firstBatch (← call (.runCommand ns.database [("listIndexes", .string collection)]))
  | .stats =>
    return .document (← call (.runCommand ns.database [("collStats", .string collection)]))
  | .insertOne document => return inserted (← call (.insertOne ns document))
  | .insertMany documents => return insertedMany (← call (.insertMany ns documents))
  | .updateOne filter update options =>
    return (← call (.updateOne ns filter (.ofUpdate update) (.ofSpec options))).value
  | .updateMany filter update options =>
    return (← call (.updateMany ns filter (.ofUpdate update) (.ofSpec options))).value
  | .replaceOne filter replacement options =>
    return (← call (.replaceOne ns filter replacement (.ofSpec options))).value
  | .deleteOne filter options => return deleted (← call (.deleteOne ns filter (.ofSpec options)))
  | .deleteMany filter options => return deleted (← call (.deleteMany ns filter (.ofSpec options)))
  | .findOneAndUpdate filter update options =>
    return found (← call (.findOneAndUpdate ns filter (.ofUpdate update) (.ofSpec options)))
  | .findOneAndDelete filter options =>
    return found (← call (.findOneAndDelete ns filter (.ofSpec options)))
  | .findOneAndReplace filter replacement options =>
    return found (← call (.findOneAndReplace ns filter replacement (.ofSpec options)))
  | .createIndex keys options =>
    return .string (← call (.createIndex ns keys (.ofSpec options)))
  | .dropIndex index =>
    return .document (← call (.runCommand ns.database
      [("dropIndexes", .string collection), ("index", indexValue index)]))

/-- Lists the operations in progress, by the older command where the server refuses to aggregate
    them. -/
def currentOp (filter : Document) : Dialogue σ Value := do
  let stage := Document.merge [("allUsers", .bool true), ("idleSessions", .bool false)] filter
  let aggregate : Request Cursor :=
    .aggregateDatabase adminDatabase [[("$currentOp", .document stage)]]
  let opened ← try some <$> driver.call handle.client aggregate catch _ => pure none
  let inProgress ← match opened with
    | some cursor => documents <$> driver.call handle.client (.collect cursor)
    | none =>
      let command := Document.merge [("currentOp", .bool true)] filter
      let reply ← driver.call handle.client (.runCommand adminDatabase command)
      pure ((reply.get? "inprog").getD (.array []))
  return .document [("inprog", inProgress)]

/-- Runs an operation. -/
def run : Operation → Dialogue σ Value
  | .onCollection collection op => handle.runOnCollection driver collection op
  | .runCommand d => .document <$> driver.call handle.client (.runCommand handle.database d)
  | .adminCommand d => .document <$> driver.call handle.client (.runCommand adminDatabase d)
  | .currentOp filter => handle.currentOp driver filter

/-- Lists the collections of the default database, in the order of their names. -/
def listCollections : Dialogue σ (List String) := do
  let names ← driver.call handle.client (.listCollectionNames handle.database)
  return names.mergeSort fun a b => a ≤ b

/-- Shuts the client down, unless that was done before. -/
def close (state : σ) : σ × Handle κ :=
  if handle.closed then (state, handle)
  else (driver.shutdown state handle.client, { handle with closed := true })

end Handle

/-! ## Connecting -/

/-- The name that clients give themselves, where the address gives none. -/
def defaultAppName : String := "querygate"

/-- The options of a client for a target, made of those that are in its address. -/
def ClientOptions.forTarget (options : ClientOptions) (target : Target) (timeout : Nat) :
    ClientOptions where
  hosts := options.hosts
  connectTimeout := some (.ofMillis timeout)
  serverSelectionTimeout := some (.ofMillis timeout)
  appName := options.appName.orElse fun _ => some defaultAppName
  credential :=
    match target.credentials with
    | some c => some {
        username := some c.username
        password := some c.password
        source := c.authSource }
    | none => options.credential

/-- Connects to a target. A client is made without a word to the server, so the server is asked for
    an answer first. -/
def connect {κ σ : Type} (driver : Driver κ σ) (target : Target) (timeout : Nat) :
    Dialogue σ (Handle κ) := do
  let options ← .exchange fun state => driver.parse state target.address
  let client ← .exchange fun state => driver.client state (options.forTarget target timeout)
  let handle : Handle κ := { client, database := target.defaultNamespace }
  handle.ping driver
  return handle

end ShellQuery.Server
