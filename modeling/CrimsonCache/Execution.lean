import CrimsonCache.Commands
import CrimsonCache.StoredData

/-!
What one call of `execute_command` can do: refuse, queue, or run a handler and
propagate. Handlers other than those of the transaction commands leave the
clients alone, and only EXEC runs further commands.
-/

namespace CrimsonCache.Commands

open CString Dictionary Persistence Replies Transaction Pubsub Replication Tokenizer ServerState
  DataCommands StoredData

/-- The lower-case first token of an input. -/
def commandName (input : Bytes) : Bytes := arg (lower (tokens input)) 0

/-- An input that a transaction queues. -/
structure Queueable (input : Bytes) : Prop where
  plain : Plain input
  nonempty : tokens input ≠ []
  direct : isTxCommand (commandName input) = false

section Table

theorem exec_name : ∀ row ∈ commands, row.command = .exec → row.name = ascii "exec" := by decide

theorem multi_name : ∀ row ∈ commands, row.command = .multi → row.name = ascii "multi" := by decide

theorem discard_name :
    ∀ row ∈ commands, row.command = .discard → row.name = ascii "discard" := by decide

/-- The rows of the transaction commands. -/
theorem tx_rows : ∀ row ∈ commands, isTxCommand row.name = true →
    (row.command = .multi ∨ row.command = .exec ∨ row.command = .discard) ∧
      row.minArgs = 1 ∧ row.maxArgs = 1 := by
  decide

theorem multi_row : ⟨.multi, ascii "multi", 1, 1⟩ ∈ commands := by simp [commands]

theorem exec_row : ⟨.exec, ascii "exec", 1, 1⟩ ∈ commands := by simp [commands]

theorem discard_row : ⟨.discard, ascii "discard", 1, 1⟩ ∈ commands := by simp [commands]

theorem multi_tx : isTxCommand (ascii "multi") = true := by simp [isTxCommand]

theorem exec_tx : isTxCommand (ascii "exec") = true := by simp [isTxCommand]

theorem discard_tx : isTxCommand (ascii "discard") = true := by simp [isTxCommand]

theorem tx_names : ascii "exec" ≠ ascii "multi" ∧ ascii "exec" ≠ ascii "discard" ∧
    ascii "discard" ≠ ascii "multi" := by decide

/-- A search of the table by a row's name stops at that row. -/
theorem row_of_name : ∀ row ∈ commands, commands.find? (·.name = row.name) = some row := by decide

/-- A command that is not for transactions has another handler. -/
theorem direct_row (row : CommandDef) (member : row ∈ commands)
    (direct : isTxCommand row.name = false) :
    row.command ≠ .multi ∧ row.command ≠ .exec ∧ row.command ≠ .discard := by
  refine ⟨?_, ?_, ?_⟩
  · intro same
    rw [multi_name row member same, multi_tx] at direct
    contradiction
  · intro same
    rw [exec_name row member same, exec_tx] at direct
    contradiction
  · intro same
    rw [discard_name row member same, discard_tx] at direct
    contradiction

theorem lower_plain (argv : List Bytes) (plain : ∀ token ∈ argv, Plain token) :
    ∀ token ∈ lower argv, Plain token := by
  cases argv with
  | nil => exact plain
  | cons name args =>
      intro token member
      rcases List.mem_cons.mp member with rfl | later
      · exact plain_lower name (plain name List.mem_cons_self)
      · exact plain token (List.mem_cons_of_mem name later)

end Table

section Inversion

/-- The messages of `execute_command` itself. -/
def refusals : List String :=
  ["err out of memory", "err empty command", "err unknown command", "err wrong number of arguments"]

/-- The three things `execute_command` does with an input. -/
inductive Executed (execute : Nat → Bytes → Server → Outcome) (env : Env) (sock : Int)
    (input : Bytes) (server : Server) : Outcome → Prop where
  | refused (message : String) (known : message ∈ refusals) :
      Executed execute env sock input server (refuse server sock message)
  | queued (nonempty : tokens input ≠ []) (inside : inTransaction sock server = true)
      (direct : isTxCommand (commandName input) = false) :
      Executed execute env sock input server (queueInput env sock input server)
  | ran (row : CommandDef) (member : row ∈ commands) (named : row.name = commandName input)
      (arity : wrongArity row (tokens input).length = false)
      (allowed : inTransaction sock server = true → isTxCommand (commandName input) = true)
      (copied : env.alloc .inputCopy = true) (tokenized : env.alloc .tokens = true) :
      Executed execute env sock input server
        (propagate env sock input (commandName input)
          (runHandler execute env sock (lower (tokens input)) server row.command))

theorem lower_length (argv : List Bytes) : (lower argv).length = argv.length := by
  cases argv <;> rfl

theorem propagate_refused (env : Env) (sock : Int) (input name : Bytes) (server : Server)
    (message : String) :
    propagate env sock input name (refuse server sock message) = refuse server sock message := by
  simp [propagate, refuse]

theorem dispatch_cases (execute : Nat → Bytes → Server → Outcome) (env : Env) (sock : Int)
    (argv : List Bytes) (server : Server) :
    (∃ message ∈ refusals, dispatch execute env sock argv server = refuse server sock message) ∨
      ∃ row ∈ commands, row.name = arg argv 0 ∧ wrongArity row argv.length = false ∧
        dispatch execute env sock argv server = runHandler execute env sock argv server row.command := by
  simp only [dispatch]
  cases found : commands.find? (·.name = arg argv 0) with
  | none => exact Or.inl ⟨"err unknown command", by simp [refusals], rfl⟩
  | some row =>
      cases arity : wrongArity row argv.length with
      | true => exact Or.inl ⟨"err wrong number of arguments", by simp [refusals], by simp [arity]⟩
      | false =>
          have named := List.find?_some found
          exact Or.inr ⟨row, List.mem_of_find?_eq_some found, by simpa using named, arity,
            by simp [arity]⟩

theorem execute_with_cases (execute : Nat → Bytes → Server → Outcome) (env : Env) (sock : Int)
    (buffer : Bytes) (server : Server) :
    Executed execute env sock (cstr buffer) server (executeWith execute env sock buffer server) := by
  simp only [executeWith]
  split
  case isFalse => exact .refused _ (by simp [refusals])
  case isTrue copied =>
    split
    case h_1 => exact .refused _ (by simp [refusals])
    case h_2 => exact .refused _ (by simp [refusals])
    case h_3 argv other tokenized =>
      simp only [tokenizeCommand] at tokenized
      split at tokenized
      case isFalse => simp at tokenized
      case isTrue allocated =>
        have same : tokens (cstr buffer) = argv := Option.some.inj tokenized
        have nonempty : tokens (cstr buffer) ≠ [] := fun empty => other (by rw [← same, empty])
        rw [← same]
        split
        case isTrue queue =>
          obtain ⟨inside, direct⟩ := Bool.and_eq_true_iff.mp queue
          exact .queued nonempty inside (by simpa [commandName] using direct)
        case isFalse proceed =>
          have allowed : inTransaction sock server = true →
              isTxCommand (commandName (cstr buffer)) = true := by
            intro inside
            simpa [inside, commandName] using proceed
          rcases dispatch_cases execute env sock (lower (tokens (cstr buffer))) server with
            ⟨message, known, refused⟩ | ⟨row, member, named, arity, ran⟩
          · rw [refused, propagate_refused]
            exact .refused message known
          · rw [ran]
            rw [lower_length] at arity
            exact .ran row member named arity allowed copied allocated

theorem execute_allocated (execute : Nat → Bytes → Server → Outcome) (env : Env) (sock : Int)
    (buffer : Bytes) (server : Server) (copied : env.alloc .inputCopy = true)
    (tokenized : env.alloc .tokens = true) (nonempty : tokens (cstr buffer) ≠ []) :
    executeWith execute env sock buffer server =
      if inTransaction sock server && !isTxCommand (commandName (cstr buffer)) then
        queueInput env sock (cstr buffer) server
      else
        propagate env sock (cstr buffer) (commandName (cstr buffer))
          (dispatch execute env sock (lower (tokens (cstr buffer))) server) := by
  have whole : tokenizeCommand true (cstr buffer) = some (tokens (cstr buffer)) := rfl
  cases shape : tokens (cstr buffer) with
  | nil => exact absurd shape nonempty
  | cons name args => simp [executeWith, copied, tokenized, whole, shape, commandName]

theorem cstr_cstr (buffer : Bytes) : cstr (cstr buffer) = cstr buffer :=
  cstr_of_nul_free _ (cstr_nul_free buffer)

theorem execute_cstr (execute : Nat → Bytes → Server → Outcome) (env : Env) (sock : Int)
    (buffer : Bytes) (server : Server) :
    executeWith execute env sock (cstr buffer) server = executeWith execute env sock buffer server := by
  simp only [executeWith, cstr_cstr]

end Inversion

section Handlers

/-- The parts of the state that no handler of a data command touches. -/
structure SameClients (before after : Server) : Prop where
  clientList : after.clientList = before.clientList
  unlisted : after.unlisted = before.unlisted
  config : after.config = before.config

theorem SameClients.refl (server : Server) : SameClients server server := ⟨rfl, rfl, rfl⟩

theorem SameClients.trans {first second third : Server} (left : SameClients first second)
    (right : SameClients second third) : SameClients first third :=
  ⟨right.clientList.trans left.clientList, right.unlisted.trans left.unlisted,
    right.config.trans left.config⟩

theorem SameClients.inTransaction {before after : Server} (same : SameClients before after)
    (sock : Int) : inTransaction sock after = inTransaction sock before := by
  simp [Commands.inTransaction, findClient, same.clientList]

/-- The commands whose handlers work on the database. -/
def onDatabase : Command → Bool
  | .set | .get | .del | .exist | .expire | .ttl | .incr => true
  | _ => false

/-- What a handler other than that of EXEC leaves as it was. -/
structure Untouched (command : Command) (before after : Server) : Prop where
  db : onDatabase command = false → after.db = before.db
  clientList : command ≠ .multi → command ≠ .discard → after.clientList = before.clientList
  channels : command ≠ .subscribe → command ≠ .unsubscribe → after.channels = before.channels
  repl : command ≠ .replicaof → command ≠ .replconf → after.repl = before.repl
  unlisted : after.unlisted = before.unlisted
  config : after.config = before.config
  changesSinceSave : after.changesSinceSave = before.changesSinceSave
  replicaBuffer : after.replicaBuffer = before.replicaBuffer

theorem Untouched.refl (command : Command) (server : Server) : Untouched command server server :=
  ⟨fun _ => rfl, fun _ _ => rfl, fun _ _ => rfl, fun _ _ => rfl, rfl, rfl, rfl, rfl⟩

theorem handler_untouched (execute : Nat → Bytes → Server → Outcome) (env : Env) (sock : Int)
    (argv : List Bytes) (server : Server) (command : Command) (direct : command ≠ .exec) :
    Untouched command server (runHandler execute env sock argv server command).server := by
  cases command with
  | exec => exact absurd rfl direct
  | set | get | del | exist | expire | ttl | incr =>
      exact ⟨nofun, fun _ _ => rfl, fun _ _ => rfl, fun _ _ => rfl, rfl, rfl, rfl, rfl⟩
  | role => exact .refl _ server
  | ping | save | bgsave | publish =>
      simp only [runHandler, pingCommand, saveCommand, bgsaveCommand, publishCommand]
      split <;> exact ⟨fun _ => rfl, fun _ _ => rfl, fun _ _ => rfl, fun _ _ => rfl, rfl, rfl, rfl, rfl⟩
  | multi | discard =>
      simp only [runHandler, multiCommand, discardCommand]
      split
      · exact .refl _ server
      · split <;> exact ⟨fun _ => rfl, by simp, fun _ _ => rfl, fun _ _ => rfl, rfl, rfl, rfl, rfl⟩
  | subscribe | unsubscribe =>
      simp only [runHandler, subscribeCommand, unsubscribeCommand]
      split
      · exact .refl _ server
      · exact ⟨fun _ => rfl, fun _ _ => rfl, by simp, fun _ _ => rfl, rfl, rfl, rfl, rfl⟩
  | replconf =>
      simp only [runHandler, replconfCommand]
      split
      · exact ⟨fun _ => rfl, fun _ _ => rfl, fun _ _ => rfl, by simp, rfl, rfl, rfl, rfl⟩
      · exact .refl _ server
  | replicaof =>
      simp only [runHandler, replicaofCommand]
      split
      · exact ⟨fun _ => rfl, fun _ _ => rfl, fun _ _ => rfl, by simp, rfl, rfl, rfl, rfl⟩
      · split
        · exact .refl _ server
        · split <;>
            exact ⟨fun _ => rfl, fun _ _ => rfl, fun _ _ => rfl, by simp, rfl, rfl, rfl, rfl⟩

theorem handler_same_clients (execute : Nat → Bytes → Server → Outcome) (env : Env) (sock : Int)
    (argv : List Bytes) (server : Server) (command : Command)
    (direct : command ≠ .multi ∧ command ≠ .exec ∧ command ≠ .discard) :
    SameClients server (runHandler execute env sock argv server command).server := by
  have untouched := handler_untouched execute env sock argv server command direct.2.1
  exact ⟨untouched.clientList direct.1 direct.2.2, untouched.unlisted, untouched.config⟩

/-- Only EXEC looks at what runs the queued inputs. -/
theorem handler_execute (first second : Nat → Bytes → Server → Outcome) (env : Env) (sock : Int)
    (argv : List Bytes) (server : Server) (command : Command) (direct : command ≠ .exec) :
    runHandler first env sock argv server command =
      runHandler second env sock argv server command := by
  cases command with
  | exec => exact absurd rfl direct
  | ping | set | get | del | exist | expire | ttl | save | bgsave | replicaof | role | incr
  | replconf | multi | discard | subscribe | unsubscribe | publish => rfl

theorem handler_sound (execute : Nat → Bytes → Server → Outcome) (env : Env) (sock : Int)
    (argv : List Bytes) (plain : ∀ token ∈ argv, Plain token) (server : Server)
    (sound : Sound server.db) (command : Command) (direct : command ≠ .exec) :
    Sound (runHandler execute env sock argv server command).server.db := by
  cases command with
  | exec => exact absurd rfl direct
  | set => exact set_sound env argv plain server.db sound
  | get => exact get_command_sound env argv server.db sound
  | del => exact delete_keys_sound argv.tail server.db sound
  | exist => exact exists_keys_sound env.clock argv.tail server.db sound
  | expire => exact expire_sound env argv server.db sound
  | ttl => exact ttl_sound env argv server.db sound
  | incr => exact incr_sound env argv plain server.db sound
  | ping | save | bgsave | replicaof | role | replconf | multi | discard | subscribe | unsubscribe
  | publish =>
      rw [(handler_untouched execute env sock argv server _ direct).db rfl]
      exact sound

end Handlers

section Propagation

/-- The state a propagated command leaves, and what it was fed as. -/
def fedServer (env : Env) (input : Bytes) (server : Server) : Server :=
  { server with
    changesSinceSave := server.changesSinceSave + 1
    repl := (replicationFeedSlaves (env.alloc .feedCopy) env.delivery input server.repl).1 }

def fedEvents (env : Env) (input : Bytes) (server : Server) : List Event :=
  .fed input :: (replicationFeedSlaves (env.alloc .feedCopy) env.delivery input server.repl).2

/-- Whether a handler's outcome is propagated. -/
def propagated (sock : Int) (name : Bytes) (outcome : Outcome) : Bool :=
  outcome.result = .ok && !inTransaction sock outcome.server &&
    outcome.server.repl.role = .primary && sock ≥ 0 && isWriteCommand name

theorem propagate_eq (env : Env) (sock : Int) (input name : Bytes) (outcome : Outcome) :
    propagate env sock input name outcome =
      if propagated sock name outcome then
        ⟨fedServer env input outcome.server, outcome.events ++ fedEvents env input outcome.server,
          outcome.result⟩
      else outcome := rfl

theorem propagate_db (env : Env) (sock : Int) (input name : Bytes) (outcome : Outcome) :
    (propagate env sock input name outcome).server.db = outcome.server.db := by
  rw [propagate_eq]
  split <;> rfl

theorem propagate_same_clients (env : Env) (sock : Int) (input name : Bytes) (outcome : Outcome) :
    SameClients outcome.server (propagate env sock input name outcome).server := by
  rw [propagate_eq]
  split <;> exact ⟨rfl, rfl, rfl⟩

theorem propagate_result (env : Env) (sock : Int) (input name : Bytes) (outcome : Outcome) :
    (propagate env sock input name outcome).result = outcome.result := by
  rw [propagate_eq]
  split <;> rfl

end Propagation

section Queue

/-- What every queued command preserves, the loop of EXEC preserves. -/
theorem run_queued_invariant (Invariant : Server → Prop)
    (execute : Nat → Bytes → Server → Outcome) (sock : Int) (cmds : List Bytes)
    (each : ∀ index, ∀ cmd ∈ cmds, ∀ server, Invariant server →
      Invariant (execute index cmd server).server)
    (index : Nat) (server : Server) (holds : Invariant server) :
    Invariant (runQueued execute sock index cmds server).1 := by
  induction cmds generalizing index server with
  | nil => exact holds
  | cons cmd rest ih =>
      apply ih fun later other member => each later other (List.mem_cons_of_mem cmd member)
      exact each index cmd List.mem_cons_self server holds

/-- A command that does not control transactions, outside of one. -/
theorem direct_execution (execute : Nat → Bytes → Server → Outcome) (env : Env) (sock : Int)
    (buffer : Bytes) (server : Server) (outside : inTransaction sock server = false)
    (direct : isTxCommand (commandName (cstr buffer)) = false) :
    SameClients server (executeWith execute env sock buffer server).server ∧
      ∀ other, executeWith other env sock buffer server =
        executeWith execute env sock buffer server := by
  have ran := execute_with_cases execute env sock buffer server
  constructor
  · generalize executeWith execute env sock buffer server = outcome at ran
    cases ran with
    | refused => exact SameClients.refl server
    | queued nonempty inside => simp [inside] at outside
    | ran row member named =>
        have apart := direct_row row member (named ▸ direct)
        exact (handler_same_clients execute env sock _ server row.command apart).trans
          (propagate_same_clients env sock _ _ _)
  · intro other
    simp only [executeWith, outside, Bool.false_and, Bool.false_eq_true, ↓reduceIte]
    split
    case isFalse => rfl
    case isTrue =>
      split
      case h_1 => rfl
      case h_2 => rfl
      case h_3 argv _ tokenized =>
        have same : tokens (cstr buffer) = argv := by
          simp only [tokenizeCommand] at tokenized
          split at tokenized
          · exact Option.some.inj tokenized
          · simp at tokenized
        have name : isTxCommand (arg (lower argv) 0) = false := same ▸ direct
        have handlers : dispatch other env sock (lower argv) server =
            dispatch execute env sock (lower argv) server := by
          simp only [dispatch]
          cases found : commands.find? (·.name = arg (lower argv) 0) with
          | none => rfl
          | some row =>
              have named : row.name = arg (lower argv) 0 := by simpa using List.find?_some found
              have apart := direct_row row (List.mem_of_find?_eq_some found) (named ▸ name)
              have same := handler_execute other execute env sock (lower argv) server row.command
                apart.2.1
              simp only [same]
        rw [handlers]

end Queue

section Rule

/-- Every client of the new list is one of the old list, by address and descriptor. -/
def SameHolders (before after : ClientList) : Prop :=
  ∀ client ∈ listed after, ∃ old ∈ listed before, old.ptr = client.ptr ∧ old.socket = client.socket

theorem update_holders (sock : Int) (change : Client → Client) (clients : ClientList)
    (same : ∀ old, getClientBySocket sock clients = some old →
      (change old).ptr = old.ptr ∧ (change old).socket = old.socket) :
    SameHolders clients (updateClient sock change clients) := by
  intro client member
  rcases update_mem sock change clients client member with old | ⟨old, found, rfl⟩
  · exact ⟨client, old, rfl, rfl⟩
  · obtain ⟨ptr, socket⟩ := same old found
    exact ⟨old, (get_mem sock clients old found).1, ptr.symm, socket.symm⟩

theorem queue_holders (array copy : Bool) (sock : Int) (cmd : Bytes) (clients : ClientList)
    (client : Client) (found : getClientBySocket sock clients = some client) :
    SameHolders clients
        (updateClient sock (fun _ => (txQueueCommand array copy client cmd).1) clients) ∧
      SameHolders clients
        (updateClient sock (fun _ => markFailed (txQueueCommand array copy client cmd).1) clients) := by
  have same : (txQueueCommand array copy client cmd).1.ptr = client.ptr ∧
      (txQueueCommand array copy client cmd).1.socket = client.socket := by
    rcases queue_command_cases array copy client cmd with ⟨capacity, result⟩ | ⟨capacity, result⟩
    · rw [result]
      exact ⟨rfl, rfl⟩
    · rw [result]
      exact ⟨rfl, rfl⟩
  constructor
  · refine update_holders sock _ clients fun old there => ?_
    obtain rfl := Option.some.inj (found.symm.trans there)
    exact same
  · refine update_holders sock _ clients fun old there => ?_
    obtain rfl := Option.some.inj (found.symm.trans there)
    exact same

/-- Invariants that know the clients by address and descriptor only: it is enough that the
    handlers of ordinary commands, the feed and the queued commands keep them. -/
theorem execute_with_rule (Invariant : Server → Prop) (execute : Nat → Bytes → Server → Outcome)
    (env : Env) (sock : Int) (buffer : Bytes) (server : Server)
    (relist : ∀ server clients, SameHolders server.clientList clients → Invariant server →
      Invariant { server with clientList := clients })
    (handler : ∀ row ∈ commands, row.name = commandName (cstr buffer) →
      row.command ≠ .multi ∧ row.command ≠ .exec ∧ row.command ≠ .discard →
      (inTransaction sock server = true → isTxCommand (commandName (cstr buffer)) = true) →
      Invariant (runHandler execute env sock (lower (tokens (cstr buffer))) server
        row.command).server)
    (feed : ∀ server, Invariant server → Invariant (fedServer env (cstr buffer) server))
    (nested : ∀ client, findClient sock server = some client → client.inTransaction = true →
      ∀ index, ∀ cmd ∈ client.queuedCommands, ∀ server, Invariant server →
        Invariant (execute index cmd server).server)
    (holds : Invariant server) : Invariant (executeWith execute env sock buffer server).server := by
  have ran := execute_with_cases execute env sock buffer server
  have modify (change : Client → Client)
      (same : ∀ old, (change old).ptr = old.ptr ∧ (change old).socket = old.socket) (server : Server)
      (holds : Invariant server) : Invariant (modifyClient sock change server) :=
    relist server _ (update_holders sock change server.clientList fun old _ => same old) holds
  generalize executeWith execute env sock buffer server = outcome at ran
  cases ran with
  | refused => exact holds
  -- Queueing, MULTI, DISCARD and the cleanup of EXEC only write to the client list.
  | queued =>
      simp only [queueInput]
      split
      · exact holds
      case h_2 client found =>
        obtain ⟨queued, failed⟩ := queue_holders (env.alloc .queueArray) (env.alloc .queueCopy) sock
          (cstr buffer) server.clientList client found
        split
        · exact relist server _ queued holds
        · exact relist server _ failed holds
  | ran row member named arity allowed =>
      have finish (outcome : Outcome) (kept : Invariant outcome.server) :
          Invariant (propagate env sock (cstr buffer) (commandName (cstr buffer)) outcome).server := by
        rw [propagate_eq]
        split
        · exact feed outcome.server kept
        · exact kept
      apply finish
      by_cases tx : row.command = .multi ∨ row.command = .exec ∨ row.command = .discard
      · rcases tx with same | same | same
        · simp only [same, runHandler, multiCommand]
          split
          · exact holds
          · split
            · exact holds
            · exact modify beginTransaction (fun _ => ⟨rfl, rfl⟩) server holds
        · simp only [same, runHandler, execCommand]
          split
          · exact holds
          case h_2 client found =>
            obtain ⟨-, rfl⟩ := get_mem sock server.clientList client found
            have cleaned := modify txCleanup (fun _ => ⟨rfl, rfl⟩) server holds
            split
            case isFalse => exact holds
            case isTrue inside =>
              apply modify leaveTransaction fun _ => ⟨rfl, rfl⟩
              simp only [txExecuteCommands]
              split
              · exact cleaned
              · split
                · apply run_queued_invariant Invariant execute
                  · intro index cmd queued
                    exact nested client found inside index cmd queued
                  · exact cleaned
                · exact cleaned
        · simp only [same, runHandler, discardCommand]
          split
          · exact holds
          · split
            · exact modify txCleanup (fun _ => ⟨rfl, rfl⟩) server holds
            · exact holds
      · simp only [not_or] at tx
        exact handler row member named tx allowed

end Rule

end CrimsonCache.Commands
