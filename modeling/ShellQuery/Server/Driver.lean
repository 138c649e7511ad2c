/-
  ShellQuery.Server.Driver

  Drivers, through which servers are reached. A driver is given: what it makes of an address, and how
  it answers a call, are its own. `Request` is the list of the calls that are made of it, each with
  all that is handed over.
-/
import ShellQuery.Executor
import ShellQuery.Server.Options

namespace ShellQuery.Server

/-! ## Calls -/

/-- Where a collection is. -/
structure Namespace where
  database : String
  collection : String
deriving DecidableEq, Repr

/-- A result that is fetched in batches. -/
structure Cursor where
  number : Nat

/-- What an update comes to. -/
structure UpdateResult where
  matched : Nat
  modified : Nat
  upsertedId : Option Value

/-- The calls of a driver, by what they return. -/
inductive Request : Type → Type where
  | runCommand (database : String) (command : Document) : Request Document
  | listCollectionNames (database : String) : Request (List String)
  /-- An aggregation on a database itself. -/
  | aggregateDatabase (database : String) (pipeline : List Document) : Request Cursor
  /-- Fetches all that is left of a result. -/
  | collect (cursor : Cursor) : Request (List Document)
  | find (ns : Namespace) (filter : Document) (options : FindOptions) : Request Cursor
  | findOne (ns : Namespace) (filter : Document) (options : FindOneOptions) :
    Request (Option Document)
  | aggregate (ns : Namespace) (pipeline : List Document) (options : AggregateOptions) :
    Request Cursor
  | countDocuments (ns : Namespace) (filter : Document) (options : CountOptions) : Request Nat
  | estimatedDocumentCount (ns : Namespace) : Request Nat
  | distinct (ns : Namespace) (field : String) (filter : Document) : Request (List Value)
  /-- Returns the id of the document. -/
  | insertOne (ns : Namespace) (document : Document) : Request Value
  /-- Returns the ids of the documents by their places, in no particular order. -/
  | insertMany (ns : Namespace) (documents : List Document) : Request (List (Nat × Value))
  | updateOne (ns : Namespace) (filter : Document) (change : Modifications)
    (options : UpdateOptions) : Request UpdateResult
  | updateMany (ns : Namespace) (filter : Document) (change : Modifications)
    (options : UpdateOptions) : Request UpdateResult
  | replaceOne (ns : Namespace) (filter replacement : Document) (options : ReplaceOptions) :
    Request UpdateResult
  /-- Returns the number of documents that are deleted. -/
  | deleteOne (ns : Namespace) (filter : Document) (options : DeleteOptions) : Request Nat
  | deleteMany (ns : Namespace) (filter : Document) (options : DeleteOptions) : Request Nat
  | findOneAndUpdate (ns : Namespace) (filter : Document) (change : Modifications)
    (options : FindOneAndUpdateOptions) : Request (Option Document)
  | findOneAndDelete (ns : Namespace) (filter : Document) (options : FindOneAndDeleteOptions) :
    Request (Option Document)
  | findOneAndReplace (ns : Namespace) (filter replacement : Document)
    (options : FindOneAndReplaceOptions) : Request (Option Document)
  /-- Returns the name of the index. -/
  | createIndex (ns : Namespace) (keys : Document) (options : IndexOptions) : Request String

/-! ## Drivers -/

/-- What a client logs in with. -/
structure Credential where
  username : Option String := none
  password : Option String := none
  source : Option String := none

/-- How a client reaches its server. -/
structure ClientOptions where
  hosts : List String
  appName : Option String := none
  connectTimeout : Option Duration := none
  serverSelectionTimeout : Option Duration := none
  credential : Option Credential := none

/-- A driver in state `σ`, with clients of type `κ`. -/
structure Driver (κ σ : Type) where
  /-- Reads an address. -/
  parse : σ → String → σ × Delayed (Except String ClientOptions)
  client : σ → ClientOptions → σ × Delayed (Except String κ)
  request {α : Type} : σ → κ → Request α → σ × Delayed (Except String α)
  shutdown : σ → κ → σ

/-! ## Conversations -/

/-- A driver in the course of a conversation, with the milliseconds that it has taken so far. -/
structure Moment (σ : Type) where
  state : σ
  elapsed : Nat := 0

/-- A conversation with a driver, which may end with an error message. -/
abbrev Dialogue (σ : Type) : Type → Type :=
  ExceptT String (StateM (Moment σ))

namespace Dialogue

variable {σ α : Type}

/-- One exchange with the driver. -/
def exchange (talk : σ → σ × Delayed (Except String α)) : Dialogue σ α :=
  ExceptT.mk fun m =>
    let (state, answer) := talk m.state
    (answer.result, { state, elapsed := m.elapsed + answer.delay })

/-- Has a conversation, and tells what it comes to and how long it takes. -/
def hold (dialogue : Dialogue σ α) (state : σ) : σ × Delayed (Except String α) :=
  let (result, m) := ExceptT.run dialogue { state }
  (m.state, { result, delay := m.elapsed })

end Dialogue

/-- Makes a call of a client. -/
def Driver.call {κ σ α : Type} (driver : Driver κ σ) (client : κ) (r : Request α) : Dialogue σ α :=
  .exchange fun state => driver.request state client r

end ShellQuery.Server
