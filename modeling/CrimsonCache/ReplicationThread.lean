import CrimsonCache.Commands

/-!
The background threads of main.c, one pass of each loop: the expiry sweep, the
auto-save test and the replication thread. The passes of a thread are steps
between those of the others; the delays are left out.
-/

namespace CrimsonCache.ReplicationThread

open CString Dictionary Persistence Replies Replication ServerState Commands

def cleanupExpiredKeys (now : Nat) (server : Server) : Server :=
  { server with db := dictClearExpired now server.db }

def saveDue (now : Nat) (server : Server) : Bool :=
  let changes : Int := server.changesSinceSave
  let elapsed : Int := now / 1000 - server.lastSave
  (server.config.saveAfterChanges > 0 && changes ≥ server.config.saveAfterChanges) ||
    (server.config.saveAfterSeconds > 0 && elapsed ≥ server.config.saveAfterSeconds && changes > 0)

def autoSave (now saveNow : Nat) (io : SaveIo) (server : Server) : Server :=
  if saveDue now server then
    let (files, saved) := saveRdbToFile io saveNow server.db dumpRdb server.files
    if saved then { server with files := files, changesSinceSave := 0, lastSave := now / 1000 }
    else { server with files := files }
  else server

def advanceOffset (stop : Nat) (server : Server) : Server :=
  { server with
    repl := { server.repl with replOffset := (server.repl.replOffset + stop) % 2 ^ 64 } }

/-- The lines of the buffer in order; empty ones are skipped. -/
def executeLines (oracle : Nat → Oracle) :
    Nat → List (Bytes × Nat) → Server → Server × List Event
  | _, [], server => (server, [])
  | index, (line, stop) :: rest, server =>
      if line = [] then executeLines oracle (index + 1) rest (advanceOffset stop server)
      else
        -- No client has this socket: nothing is queued, answered or fed on.
        let outcome := executeCommand (oracle index) (-1) line server
        let (server, events) :=
          executeLines oracle (index + 1) rest (advanceOffset stop outcome.server)
        (server, .executing (-1) line :: outcome.events ++ events)

def markConnected (repl : ReplicationInfo) : ReplicationInfo :=
  if repl.state = .sync then { repl with state := .connected } else repl

def receiveFromPrimary (oracle : Nat → Oracle) (chunk : Bytes) (server : Server) :
    Server × List Event :=
  let (lines, left) := crlfLines 0 [] (server.replicaBuffer ++ chunk)
  let (server, events) := executeLines oracle 0 lines server
  ({ server with replicaBuffer := left, repl := markConnected server.repl }, events)

inductive Received where
  | data (chunk : Bytes)
  | wouldBlock
  | lost

def reconnect (connect : Connect) (server : Server) : Server × List Event :=
  let (repl, _, events) :=
    replicationSetPrimary connect server.config.port server.repl.primaryHost
      server.repl.primaryPort server.repl
  ({ server with repl := repl }, events)

/-- A lost connection is closed before the thread connects again. -/
def losePrimary (repl : ReplicationInfo) : ReplicationInfo × List Event :=
  ({ repl with primaryFd := -1, state := .connecting }, [.closed repl.primaryFd])

def replicationThread (oracle : Nat → Oracle) (received : Received) (connect : Connect)
    (server : Server) : Server × List Event :=
  match server.repl.role, server.repl.state with
  | .primary, _ => (server, [])
  | .replica, .none => (server, [])
  | .replica, .connecting =>
      -- With a descriptor still set the state is one of the two below.
      if server.repl.primaryFd = -1 then reconnect connect server else (server, [])
  | .replica, _ =>
      match received with
      | .data chunk => receiveFromPrimary oracle chunk server
      | .wouldBlock => (server, [])
      | .lost =>
          let (repl, closing) := losePrimary server.repl
          let (server, events) := reconnect connect { server with repl := repl }
          (server, closing ++ events)

end CrimsonCache.ReplicationThread
