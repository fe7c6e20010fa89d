import CrimsonCache.DataCommands
import CrimsonCache.Tokenizer

/-!
commands.c: the command table, the remaining handlers and `execute_command`.
EXEC calls `execute_command` again for each queued input, so the function is
given by its recursion depth; queued inputs never call EXEC themselves, and one
level is all that a server uses.
-/

namespace CrimsonCache.Commands

open CString Dictionary Persistence Replies Transaction Pubsub Replication Tokenizer ServerState
  DataCommands

/-- The rows of the command table. -/
inductive Command where
  | ping
  | set
  | get
  | del
  | exist
  | expire
  | ttl
  | save
  | bgsave
  | replicaof
  | role
  | incr
  | replconf
  | multi
  | exec
  | discard
  | subscribe
  | unsubscribe
  | publish
  deriving DecidableEq

structure CommandDef where
  command : Command
  name : Bytes
  minArgs : Int
  maxArgs : Int
  deriving DecidableEq

def commands : List CommandDef :=
  [⟨.ping, ascii "ping", 1, 2⟩,
    ⟨.set, ascii "set", 3, -1⟩,
    ⟨.get, ascii "get", 2, 2⟩,
    ⟨.del, ascii "del", 2, -1⟩,
    ⟨.exist, ascii "exists", 2, -1⟩,
    ⟨.expire, ascii "expire", 3, 3⟩,
    ⟨.ttl, ascii "ttl", 2, 2⟩,
    ⟨.save, ascii "save", 1, 1⟩,
    ⟨.bgsave, ascii "bgsave", 1, 1⟩,
    ⟨.replicaof, ascii "replicaof", 3, 3⟩,
    ⟨.role, ascii "role", 1, 1⟩,
    ⟨.incr, ascii "incr", 2, 2⟩,
    ⟨.replconf, ascii "replconf", 2, -1⟩,
    ⟨.multi, ascii "multi", 1, 1⟩,
    ⟨.exec, ascii "exec", 1, 1⟩,
    ⟨.discard, ascii "discard", 1, 1⟩,
    ⟨.subscribe, ascii "subscribe", 2, -1⟩,
    ⟨.unsubscribe, ascii "unsubscribe", 1, -1⟩,
    ⟨.publish, ascii "publish", 3, 3⟩]

def wrongArity (row : CommandDef) (argc : Nat) : Bool :=
  (row.minArgs > 0 && argc < row.minArgs) ||
    (row.maxArgs > 0 && argc > row.maxArgs && row.maxArgs ≠ -1)

section Handlers

def replied (server : Server) (sock : Int) (answer : Reply) (result : CmdResult) : Outcome :=
  ⟨server, [.reply sock answer], result⟩

def answered (server : Server) (sock : Int) (answer : Answer) : Outcome :=
  ⟨{ server with db := answer.db }, [.reply sock answer.reply], answer.result⟩

def pingCommand (sock : Int) (argv : List Bytes) (server : Server) : Outcome :=
  if argv.length > 1 then replied server sock (.bulk (arg argv 1)) .ok
  else replied server sock (.string (ascii "PONG")) .ok

def saveCommand (env : Env) (sock : Int) (server : Server) : Outcome :=
  let (files, saved) := saveRdbToFile env.save (env.clock 0) server.db dumpRdb server.files
  if saved then replied { server with files := files } sock (.string (ascii "OK")) .ok
  else replied { server with files := files } sock (.error (ascii "ERR failed to save db")) .err

/-- The child of the fork saves on its own time. -/
def bgsaveCommand (env : Env) (sock : Int) (server : Server) : Outcome :=
  if env.fork then
    ⟨server, [.forked server.db, .reply sock (.string (ascii "Background saving started"))], .ok⟩
  else replied server sock (.error (ascii "ERR failed to start background save")) .err

def replicaofCommand (env : Env) (sock : Int) (argv : List Bytes) (server : Server) : Outcome :=
  if strcaseeq (arg argv 1) (ascii "NO") && strcaseeq (arg argv 2) (ascii "ONE") then
    let (repl, events) := replicationUnsetPrimary server.repl
    ⟨{ server with repl := repl }, events ++ [.reply sock (.string (ascii "OK"))], .ok⟩
  else
    let host := arg argv 1
    let port := atoi (arg argv 2)
    if port ≤ 0 ∨ port > 65535 then replied server sock (.error (ascii "ERR invalid port")) .err
    else
      let (repl, connected, events) :=
        replicationSetPrimary env.connect server.config.port host port server.repl
      if connected then
        ⟨{ server with repl := repl }, events ++ [.reply sock (.string (ascii "OK"))], .ok⟩
      else
        ⟨{ server with repl := repl },
          events ++ [.reply sock (.error (ascii "ERR couldn't connect to primary"))], .err⟩

def roleReplica (now : Nat) (replica : Replica) : Bytes :=
  ascii "*3\r\n$" ++ decimal replica.ip.length ++ crlf ++ replica.ip ++ crlf ++ ascii ":" ++
    decimalInt replica.port ++ crlf ++ ascii ":" ++ decimalInt (now / 1000 - replica.lastAckTime) ++
    crlf

/-- The loop runs while `written` leaves a hundred bytes of the buffer. Up to
    there nothing was cut, so `written` is the length of the text. -/
def roleReplicas : (Nat → Nat) → Bytes → List Replica → Bytes
  | _, response, [] => response
  | clock, response, replica :: rest =>
      if response.length < 924 then
        roleReplicas (fun index => clock (index + 1)) (response ++ roleReplica (clock 0) replica) rest
      else response

def roleResponse (env : Env) (repl : ReplicationInfo) : Bytes :=
  match repl.role with
  | .primary =>
      roleReplicas env.clock
        (ascii "*3\r\n$6\r\nmaster\r\n:" ++ decimal repl.replOffset ++ crlf ++ ascii "*" ++
          decimal (countReplicas repl) ++ crlf)
        repl.replicas
  | .replica =>
      let state := if repl.state = .connected then ascii "connected" else ascii "connecting"
      ascii "*5\r\n$5\r\nslave\r\n$" ++ decimal repl.primaryHost.length ++ crlf ++
        repl.primaryHost ++ crlf ++ ascii ":" ++ decimalInt repl.primaryPort ++ crlf ++
        ascii "$" ++ decimal state.length ++ crlf ++ state ++ crlf ++ ascii ":" ++
        decimal repl.replOffset ++ crlf

def roleCommand (env : Env) (sock : Int) (server : Server) : Outcome :=
  ⟨server, [.write sock (snprintf 1024 (roleResponse env server.repl))], .ok⟩

def replconfCommand (env : Env) (sock : Int) (argv : List Bytes) (server : Server) : Outcome :=
  if argv.length ≥ 3 ∧ strcaseeq (arg argv 1) (ascii "listening-port") then
    let port := atoi (arg argv 2)
    let (repl, events) :=
      addReplica (env.alloc .replica) (env.clock 0) env.sync sock env.peer port server.db server.repl
    ⟨{ server with repl := repl }, events ++ [.reply sock (.string (ascii "OK"))], .ok⟩
  else replied server sock (.string (ascii "OK")) .ok

def findClient (sock : Int) (server : Server) : Option Client :=
  getClientBySocket sock server.clientList

/-- A write through the pointer that `findClient` returned. -/
def modifyClient (sock : Int) (change : Client → Client) (server : Server) : Server :=
  { server with clientList := updateClient sock change server.clientList }

def beginTransaction (client : Client) : Client :=
  { client with inTransaction := true, transactionErrors := false }

def multiCommand (sock : Int) (server : Server) : Outcome :=
  match findClient sock server with
  | none => replied server sock (.error (ascii "ERR client not found")) .err
  | some client =>
      if client.inTransaction then
        replied server sock (.error (ascii "ERR MULTI calls can not be nested")) .err
      else
        replied (modifyClient sock beginTransaction server) sock (.string (ascii "OK")) .ok

/-- The loop of `tx_execute_commands`. -/
def runQueued (execute : Nat → Bytes → Server → Outcome) (sock : Int) :
    Nat → List Bytes → Server → Server × List Event
  | _, [], server => (server, [])
  | index, cmd :: rest, server =>
      let outcome := execute index cmd server
      let (server, events) := runQueued execute sock (index + 1) rest outcome.server
      (server, .executing sock cmd :: outcome.events ++ events)

def arrayHeader (size : Nat) : Bytes := snprintf 32 (ascii "*" ++ decimal size ++ crlf)

def txExecuteCommands (execute : Nat → Bytes → Server → Outcome) (env : Env) (client : Client)
    (server : Server) : Server × List Event :=
  let sock := client.socket
  let cleaned := modifyClient sock txCleanup server
  if client.transactionErrors then
    (cleaned, [.reply sock
      (.error (ascii "EXECABORT Transaction discarded because of previous errors"))])
  else if env.alloc .txCommands then
    -- The copies are run after the cleanup, so outside of the transaction.
    let (server, events) := runQueued execute sock 0 client.queuedCommands cleaned
    (server, .write sock (arrayHeader client.queuedCommands.length) :: events)
  else
    (cleaned, [.reply sock (.error (ascii "ERR out of memory during transaction execution"))])

def leaveTransaction (client : Client) : Client := { client with inTransaction := false }

def execCommand (execute : Nat → Bytes → Server → Outcome) (env : Env) (sock : Int)
    (server : Server) : Outcome :=
  match findClient sock server with
  | none => replied server sock (.error (ascii "ERR client not found")) .err
  | some client =>
      if client.inTransaction then
        let (server, events) := txExecuteCommands execute env client server
        -- A second reset; the cleanup has been made on every path by now.
        ⟨modifyClient sock leaveTransaction server, events, .ok⟩
      else replied server sock (.error (ascii "ERR EXEC without MULTI")) .err

/-- `tx_discard_commands` replies and so does its caller. -/
def discardCommand (sock : Int) (server : Server) : Outcome :=
  match findClient sock server with
  | none => replied server sock (.error (ascii "ERR client not found")) .err
  | some client =>
      if client.inTransaction then
        ⟨modifyClient sock txCleanup server,
          [.reply sock (.string (ascii "OK")), .reply sock (.string (ascii "OK"))], .ok⟩
      else replied server sock (.error (ascii "ERR DISCARD without MULTI")) .err

def subscribeCommand (env : Env) (sock : Int) (argv : List Bytes) (server : Server) : Outcome :=
  match findClient sock server with
  | none => replied server sock (.error (ascii "err client not found for subscribe")) .err
  | some client =>
      let (channels, events) :=
        pubsubSubscribeClient (fun index => env.alloc (.channel index))
          (fun index => env.alloc (.subscriber index)) client argv server.channels
      ⟨{ server with channels := channels }, events, .ok⟩

def unsubscribeCommand (sock : Int) (argv : List Bytes) (server : Server) : Outcome :=
  match findClient sock server with
  | none => replied server sock (.error (ascii "err client not found for unsubscribe")) .err
  | some client =>
      let (channels, events) := pubsubUnsubscribeClient client argv server.channels
      ⟨{ server with channels := channels }, events, .ok⟩

def publishCommand (sock : Int) (argv : List Bytes) (server : Server) : Outcome :=
  if argv.length ≠ 3 then
    replied server sock (.error (ascii "err wrong number of arguments for 'publish' command")) .err
  else
    let (events, receivers) := pubsubPublishMessage (arg argv 1) (arg argv 2) server.channels
    ⟨server, events ++ [.reply sock (.integer receivers)], .ok⟩

end Handlers

section Execution

def runHandler (execute : Nat → Bytes → Server → Outcome) (env : Env) (sock : Int)
    (argv : List Bytes) (server : Server) : Command → Outcome
  | .ping => pingCommand sock argv server
  | .set => answered server sock (setCommand env argv server.db)
  | .get => answered server sock (getCommand env argv server.db)
  | .del => answered server sock (delCommand argv server.db)
  | .exist => answered server sock (existsCommand env argv server.db)
  | .expire => answered server sock (expireCommand env argv server.db)
  | .ttl => answered server sock (ttlCommand env argv server.db)
  | .save => saveCommand env sock server
  | .bgsave => bgsaveCommand env sock server
  | .replicaof => replicaofCommand env sock argv server
  | .role => roleCommand env sock server
  | .incr => answered server sock (incrCommand env argv server.db)
  | .replconf => replconfCommand env sock argv server
  | .multi => multiCommand sock server
  | .exec => execCommand execute env sock server
  | .discard => discardCommand sock server
  | .subscribe => subscribeCommand env sock argv server
  | .unsubscribe => unsubscribeCommand sock argv server
  | .publish => publishCommand sock argv server

/-- Replies of `execute_command` itself, made to real connections only. -/
def refuse (server : Server) (sock : Int) (message : String) : Outcome :=
  ⟨server, if sock ≥ 0 then [.reply sock (.error (ascii message))] else [], .err⟩

def dispatch (execute : Nat → Bytes → Server → Outcome) (env : Env) (sock : Int)
    (argv : List Bytes) (server : Server) : Outcome :=
  match commands.find? (·.name = arg argv 0) with
  | none => refuse server sock "err unknown command"
  | some row =>
      if wrongArity row argv.length then refuse server sock "err wrong number of arguments"
      else runHandler execute env sock argv server row.command

def lower (argv : List Bytes) : List Bytes :=
  match argv with
  | [] => []
  | name :: args => name.map tolower :: args

def isTxCommand (name : Bytes) : Bool :=
  name = ascii "multi" || name = ascii "exec" || name = ascii "discard"

def isWriteCommand (name : Bytes) : Bool :=
  strcaseeq name (ascii "set") || strcaseeq name (ascii "del") ||
    strcaseeq name (ascii "expire") || strcaseeq name (ascii "incr")

/-- Whether the connection has a listed client with an open transaction. -/
def inTransaction (sock : Int) (server : Server) : Bool :=
  sock ≥ 0 && (findClient sock server).any (·.inTransaction)

def markFailed (client : Client) : Client := { client with transactionErrors := true }

def queueInput (env : Env) (sock : Int) (input : Bytes) (server : Server) : Outcome :=
  match findClient sock server with
  -- Not reached: the caller has seen the client's open transaction.
  | none => ⟨server, [], .ok⟩
  | some client =>
      let (queued, ok) := txQueueCommand (env.alloc .queueArray) (env.alloc .queueCopy) client input
      if ok then
        replied (modifyClient sock (fun _ => queued) server) sock (.string (ascii "QUEUED")) .ok
      else
        replied (modifyClient sock (fun _ => markFailed queued) server) sock
          (.error (ascii "err queue command failed")) .ok

def propagate (env : Env) (sock : Int) (input name : Bytes) (outcome : Outcome) : Outcome :=
  if outcome.result = .ok && !inTransaction sock outcome.server &&
      outcome.server.repl.role = .primary && sock ≥ 0 && isWriteCommand name then
    let (repl, events) :=
      replicationFeedSlaves (env.alloc .feedCopy) env.delivery input outcome.server.repl
    { outcome with
      server :=
        { outcome.server with
          changesSinceSave := outcome.server.changesSinceSave + 1
          repl := repl }
      events := outcome.events ++ .fed input :: events }
  else outcome

/-- `execute_command`, given what runs the queued inputs. -/
def executeWith (execute : Nat → Bytes → Server → Outcome) (env : Env) (sock : Int)
    (buffer : Bytes) (server : Server) : Outcome :=
  let input := cstr buffer
  if env.alloc .inputCopy then
    match tokenizeCommand (env.alloc .tokens) input with
    | none => refuse server sock "err empty command"
    | some [] => refuse server sock "err empty command"
    | some argv =>
        let argv := lower argv
        -- The input is queued as it was read, without a look at the table.
        if inTransaction sock server && !isTxCommand (arg argv 0) then
          queueInput env sock input server
        else propagate env sock input (arg argv 0) (dispatch execute env sock argv server)
  else refuse server sock "err out of memory"

def executeCommandAt : Nat → Oracle → Int → Bytes → Server → Outcome
  | 0, oracle, sock, buffer, server =>
      executeWith (fun _ _ server => ⟨server, [], .unknown⟩) (oracle []) sock buffer server
  | depth + 1, oracle, sock, buffer, server =>
      executeWith
        (fun index cmd server => executeCommandAt depth (oracle.inner index) sock cmd server)
        (oracle []) sock buffer server

def executeCommand (oracle : Oracle) (sock : Int) (buffer : Bytes) (server : Server) : Outcome :=
  executeCommandAt 1 oracle sock buffer server

end Execution

end CrimsonCache.Commands
