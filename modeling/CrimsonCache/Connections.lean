import CrimsonCache.Commands

/-!
The life of a connection: main.c's `handle_client` and eventloop.c's handlers.
A read returns the bytes it took, none of them for a closed or broken
connection. Accepting, and the allocation of a client, are taken to succeed.
-/

namespace CrimsonCache.Connections

open CString Replies Transaction Pubsub ServerState Commands

def newClient (ptr : Nat) (socket : Int) (config : ServerConfig) : Client :=
  txInit
    { ptr := ptr
      socket := socket
      bufferCapacity := config.bufferSize
      buffer := []
      inTransaction := false
      transactionErrors := false
      queuedCommands := []
      queueCapacity := 0 }

/-- `register_client` leaves out a client for which it finds no free slot. -/
def connectClient (client : Client) (server : Server) : Server :=
  { server with
    clientList := registerClient client server.clientList
    unlisted := if none ∈ server.clientList then server.unlisted else client :: server.unlisted }

def openClients (server : Server) : List Client :=
  listed server.clientList ++ server.unlisted

def openClient (sock : Int) (server : Server) : Option Client :=
  (openClients server).find? (·.socket = sock)

def disconnectClient (client : Client) (server : Server) : Server × List Event :=
  ({ server with
    channels := pubsubRemoveClient client.ptr server.channels
    clientList := unregisterClient client.ptr server.clientList
    unlisted := server.unlisted.filter (·.ptr ≠ client.ptr) },
    [.closed client.socket])

/-- What one read did: the new state, its events, the inputs passed on. -/
structure Reading where
  server : Server
  events : List Event
  passed : List Bytes

def resetBuffer (client : Client) : Client := { client with buffer := [] }

def resetUnlisted (sock : Int) (clients : List Client) : List Client :=
  clients.map fun client => if client.socket = sock then resetBuffer client else client

/-- The whole buffer goes to `execute_command`, then `buffer_pos` is zero. -/
def readInput (oracle : Oracle) (client : Client) (chunk : Bytes) (server : Server) : Reading :=
  let buffer := client.buffer ++ chunk
  -- No line end is looked for.
  let outcome := executeCommand oracle client.socket buffer server
  { server :=
      { outcome.server with
        clientList := updateClient client.socket resetBuffer outcome.server.clientList
        unlisted := resetUnlisted client.socket outcome.server.unlisted }
    events := outcome.events
    passed := [buffer] }

/-- One pass of the loop of `handle_client`. Its thread owns the client, listed
    or not. -/
def handleClient (oracle : Oracle) (sock : Int) (chunk : Bytes) (server : Server) : Reading :=
  match openClient sock server with
  | none => ⟨server, [], []⟩
  | some client =>
      if chunk = [] then
        let (server, events) := disconnectClient client server
        ⟨server, events, []⟩
      else readInput oracle client chunk server

/-- The event loop knows a client by its slot only, and drops a descriptor that
    has none. -/
def handleClientMessage (oracle : Oracle) (sock : Int) (chunk : Bytes) (server : Server) :
    Reading :=
  match findClient sock server with
  | none =>
      ⟨{ server with unlisted := server.unlisted.filter (·.socket ≠ sock) }, [.closed sock], []⟩
  | some client =>
      if chunk = [] then
        let (server, events) := disconnectClient client server
        ⟨server, events, []⟩
      else readInput oracle client chunk server

/-- The handler that the configured concurrency model runs. -/
def serve (oracle : Oracle) (sock : Int) (chunk : Bytes) (server : Server) : Reading :=
  match server.config.concurrencyModel with
  | .threaded => handleClient oracle sock chunk server
  | .eventLoop => handleClientMessage oracle sock chunk server

end CrimsonCache.Connections
