import CrimsonCache.Persistence
import CrimsonCache.Pubsub
import CrimsonCache.Replication

/-!
The global state of the server and what the world contributes to a command: the
clock, the outcome of every allocation, and the results of system calls. A
connection that found no free slot of the client list is served all the same;
`unlisted` holds those.
-/

namespace CrimsonCache.ServerState

open CString Dictionary Persistence Replies Transaction Pubsub Replication

inductive ConcurrencyModel where
  | threaded
  | eventLoop
  deriving DecidableEq

structure ServerConfig where
  port : Int
  concurrencyModel : ConcurrencyModel
  maxClients : Nat
  saveAfterSeconds : Int
  saveAfterChanges : Int
  bufferSize : Nat
  maxEvents : Int
  deriving DecidableEq

def loadDefaultConfig : ServerConfig where
  port := 6379
  concurrencyModel := .threaded
  maxClients := 100
  saveAfterSeconds := 300
  saveAfterChanges := 1000
  bufferSize := 1024
  maxEvents := 64

inductive CmdResult where
  | ok
  | err
  | unknown
  deriving DecidableEq

/-- The allocations a command can make. `tokens` stands for all those of
    `tokenize_command` and `txCommands` for those of `tx_execute_commands`. -/
inductive AllocSite where
  | inputCopy
  | tokens
  | queueArray
  | queueCopy
  | txCommands
  | obj
  | objPtr
  | dictTable
  | dictEntry
  | dictKey
  | replica
  | feedCopy
  | channel (index : Nat)
  | subscriber (index : Nat)
  deriving DecidableEq

/-- One command's view of the world. `clock` lists the readings of
    `current_time_ms` in the order the handler makes them. -/
structure Env where
  clock : Nat → Nat
  alloc : AllocSite → Bool
  save : SaveIo
  fork : Bool
  connect : Connect
  peer : Bytes
  sync : Nat → SyncEnv
  delivery : Nat → Delivery

def Env.dict (env : Env) : DictAlloc where
  table := env.alloc .dictTable
  entry := env.alloc .dictEntry
  key := env.alloc .dictKey

/-- The worlds of a command and of the commands it runs in turn. -/
abbrev Oracle := List Nat → Env

def Oracle.inner (oracle : Oracle) (index : Nat) : Oracle := fun path => oracle (index :: path)

structure Server where
  db : Dict
  clientList : ClientList
  unlisted : List Client
  channels : List Channel
  repl : ReplicationInfo
  changesSinceSave : Nat
  lastSave : Nat
  /-- What the replication thread holds before its `buffer_pos`. -/
  replicaBuffer : Bytes
  files : Files
  config : ServerConfig

structure Outcome where
  server : Server
  events : List Event
  result : CmdResult

/-- Every allocation of the command and of those it runs succeeds. -/
def Oracle.Allocates (oracle : Oracle) : Prop := ∀ path site, (oracle path).alloc site = true

/-- A world at a fixed time in which every call succeeds and no peer reads. -/
def calm (now : Nat) : Oracle := fun _ =>
  { clock := fun _ => now
    alloc := fun _ => true
    save := ⟨true, fun _ => true, none, true⟩
    fork := true
    connect := .refused
    peer := []
    sync := fun _ => ⟨now, now, .wouldBlock, .wouldBlock, fun _ => 0⟩
    delivery := fun _ => ⟨.wouldBlock, now⟩ }

theorem calm_allocates (now : Nat) : (calm now).Allocates := fun _ _ => rfl

/-- The state `main` sets up before it serves, with an empty database. -/
def initServer (db : Dict) (now : Nat) (files : Files) (config : ServerConfig) : Server where
  db := db
  clientList := List.replicate config.maxClients none
  unlisted := []
  channels := []
  repl := replicationInit
  changesSinceSave := 0
  lastSave := now / 1000
  replicaBuffer := []
  files := files
  config := config

end CrimsonCache.ServerState
