/-
  ShellQuery.Server.Connection

  Servers as stores. `store` keeps the handles that a driver has opened; `unreachable` is what an
  address leads to where there is no network.
-/
import ShellQuery.Server.Address
import ShellQuery.Server.Handle

namespace ShellQuery.Server

open Cache

/-! ## The handles of a driver -/

/-- A driver, and the handles that it has opened. -/
structure Clients (κ σ : Type) where
  driver : σ
  /-- The newest handle that each task has connected, before it has a number. -/
  connected : List (TaskId × Handle κ) := []
  handles : List (HandleId × Handle κ) := []

namespace Clients

variable {κ σ α : Type}

/-- Has a conversation about a handle. -/
def talk (s : Clients κ σ) (h : HandleId) (dialogue : Handle κ → Dialogue σ α) :
    Clients κ σ × Delayed (Except String α) :=
  match s.handles.lookup h with
  | some handle =>
    let (driver, answer) := (dialogue handle).hold s.driver
    ({ s with driver }, answer)
  | none => (s, ⟨.error "", 0⟩)

end Clients

/-- What is reached through a driver, as a store. -/
def store {κ σ : Type} (driver : Driver κ σ) : Store (Clients κ σ) where
  connect s c target timeout :=
    let (state, answer) := (connect driver target timeout).hold s.driver
    let connected := match answer.result with
      | .ok handle => (c, handle) :: s.connected
      | .error _ => s.connected
    ({ s with driver := state, connected }, answer.map fun result => result.map fun _ => ())
  opened s c h :=
    match s.connected.lookup c with
    | some handle => { s with handles := (h, handle) :: s.handles }
    | none => s
  probe s _ h :=
    match s.handles.lookup h with
    | some handle =>
      let (state, alive) := handle.isAlive driver s.driver
      ({ s with driver := state }, alive)
    | none => (s, false)
  run s _ h operation := s.talk h fun handle => handle.run driver operation
  list s _ h := s.talk h fun handle => handle.listCollections driver
  close s _ h :=
    match s.handles.lookup h with
    | some handle =>
      let (state, handle) := handle.close driver s.driver
      { s with driver := state, handles := (h, handle) :: s.handles }
    | none => s

/-! ## No network -/

/-- A driver without a network. What is wrong with an address shows at once; a call to a server is
    given up after the given milliseconds. -/
def stranded (patience : Nat) : Driver ClientOptions Unit where
  parse _ address :=
    match hosts address.toList with
    | .ok hosts => ((), ⟨.ok { hosts }, 0⟩)
    | .error fault => ((), ⟨.error (invalidArgument fault.description), 0⟩)
  client _ options := ((), ⟨.ok options, 0⟩)
  request _ client _ := ((), ⟨.error (unreachableMessage client.hosts), patience⟩)
  shutdown _ _ := ()

/-- A store of which nothing is kept from one call to the next. -/
def forgetful {σ : Type} (store : Store σ) (s : σ) : Store Unit where
  connect _ c target timeout := ((), (store.connect s c target timeout).2)
  opened _ _ _ := ()
  probe _ c h := ((), (store.probe s c h).2)
  run _ c h operation := ((), (store.run s c h operation).2)
  list _ c h := ((), (store.list s c h).2)
  close _ _ _ := ()

/-- Addresses without a network behind them. As no connection is ever made, there is nothing to
    keep. -/
def unreachable (patience : Nat) : Store Unit :=
  forgetful (store (stranded patience)) { driver := () }

/-- Addresses without a network behind them, for an executor that loses its patience first. -/
def disconnected (config : Config) : Store Unit :=
  unreachable (config.connectTimeout + 1)

end ShellQuery.Server
