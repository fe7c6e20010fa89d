import CrimsonCache.Execution

/-!
What one call of `execute_command` does to the transaction of its client, and
which of its events say so: an input is queued or not, MULTI opens, EXEC and
DISCARD close, and everything else leaves all clients as they are.
-/

namespace CrimsonCache.TransactionSteps

open CString Dictionary Persistence Replies Transaction Pubsub Replication Tokenizer ServerState
  DataCommands StoredData Commands

def okReply : Reply := .string (ascii "OK")
def queuedReply : Reply := .string (ascii "QUEUED")
def queueFailedReply : Reply := .error (ascii "err queue command failed")

def plainReply (answer : Reply) : Bool := answer ≠ queuedReply && answer ≠ queueFailedReply

/-- Neither an answer to a queued input nor the execution of one. -/
def plainEvent : Event → Bool
  | .executing _ _ => false
  | .reply _ answer => plainReply answer
  | _ => true

def Quiet (events : List Event) : Prop := ∀ event ∈ events, plainEvent event = true

/-- The error texts of the handlers. -/
def handlerErrors : List String :=
  ["ERR out of memory", "ERR could not set key", "ERR value is not an integer or out of range",
    "ERR failed to save db", "ERR failed to start background save", "ERR invalid port",
    "ERR couldn't connect to primary", "ERR client not found", "ERR MULTI calls can not be nested",
    "ERR EXEC without MULTI", "EXECABORT Transaction discarded because of previous errors",
    "ERR out of memory during transaction execution", "ERR DISCARD without MULTI",
    "err client not found for subscribe",
    "err wrong number of arguments for 'subscribe' command", "err failed to subscribe to channel",
    "err client not found for unsubscribe",
    "err wrong number of arguments for 'publish' command"]

section Events

theorem quiet_nil : Quiet [] := by simp [Quiet]

theorem Quiet.append {left right : List Event} (first : Quiet left) (second : Quiet right) :
    Quiet (left ++ right) := by
  intro event member
  rcases List.mem_append.mp member with early | late
  · exact first event early
  · exact second event late

theorem Quiet.cons {event : Event} {rest : List Event} (first : plainEvent event = true)
    (later : Quiet rest) : Quiet (event :: rest) := by
  intro other member
  rcases List.mem_cons.mp member with rfl | late
  · exact first
  · exact later other late

theorem Quiet.executed {events : List Event} (quiet : Quiet events) (sock : Int) :
    executedInputs sock events = [] := by
  unfold executedInputs
  rw [List.filterMap_eq_nil_iff]
  intro event member
  have plain := quiet event member
  cases event with
  | executing fd input => simp [plainEvent] at plain
  | reply | write | replicaWrite | fed | forked | closed => rfl

theorem Quiet.answers {events : List Event} (quiet : Quiet events) (sock : Int) :
    .reply sock queuedReply ∉ events ∧ .reply sock queueFailedReply ∉ events := by
  constructor
  · intro member
    have plain : plainReply queuedReply = true := quiet _ member
    simp [plainReply] at plain
  · intro member
    have plain : plainReply queueFailedReply = true := quiet _ member
    simp [plainReply] at plain

theorem quiet_feed_writes (cmd : Bytes) (delivery : Nat → Delivery) (replicas : List Replica) :
    Quiet (feedWrites cmd delivery replicas) := by
  induction replicas generalizing delivery with
  | nil => exact quiet_nil
  | cons replica rest ih => exact Quiet.cons rfl (ih _)

theorem quiet_fed (env : Env) (input : Bytes) (server : Server) :
    Quiet (fedEvents env input server) := by
  apply Quiet.cons rfl
  simp only [replicationFeedSlaves]
  split
  · exact quiet_feed_writes _ _ _
  · exact quiet_nil

theorem quiet_sync (fd : Int) (env : Nat → SyncEnv) (entries : List DictEntry) :
    Quiet (syncEntries fd env entries) := by
  induction entries generalizing env with
  | nil => exact quiet_nil
  | cons entry rest ih =>
      apply Quiet.append _ (ih _)
      simp only [syncEntry]
      split
      · exact quiet_nil
      · split
        · apply Quiet.cons rfl
          split
          · simp only [syncExpire]
            split
            · split
              · exact Quiet.cons rfl quiet_nil
              · exact quiet_nil
            · exact quiet_nil
          · exact quiet_nil
        · exact quiet_nil

theorem quiet_close (repl : ReplicationInfo) : Quiet (closePrimary repl).2 := by
  simp only [closePrimary]
  split
  · exact Quiet.cons rfl quiet_nil
  · exact quiet_nil

theorem quiet_set_primary (connect : Connect) (port : Int) (host : Bytes) (primaryPort : Int)
    (repl : ReplicationInfo) : Quiet (replicationSetPrimary connect port host primaryPort repl).2.2 := by
  simp only [replicationSetPrimary]
  split
  · exact quiet_close repl
  · exact quiet_close repl
  · exact (quiet_close repl).append (Quiet.cons rfl (Quiet.cons rfl quiet_nil))

theorem quiet_reply (sock : Int) (answer : Reply) (plain : plainReply answer = true) :
    Quiet [.reply sock answer] := Quiet.cons plain quiet_nil

theorem ok_plain : plainReply okReply = true := by decide

theorem errors_plain : ∀ message ∈ handlerErrors, plainReply (.error (ascii message)) = true := by
  decide

theorem quiet_error (sock : Int) (message : String) (known : message ∈ handlerErrors) :
    Quiet [.reply sock (.error (ascii message))] :=
  quiet_reply sock _ (errors_plain message known)

theorem quiet_subscribe (channel node : Nat → Bool) (client : Client) (index count : Nat)
    (names : List Bytes) (channels : List Channel) :
    Quiet (subscribeChannels channel node client index count names channels).2 := by
  induction names generalizing index count channels with
  | nil => exact quiet_nil
  | cons name rest ih =>
      simp only [subscribeChannels]
      apply Quiet.cons _ (ih _ _ _)
      split
      · rfl
      · exact errors_plain _ (by simp [handlerErrors])

theorem quiet_unsubscribe_all (client : Client) (channels : List Channel) :
    Quiet (unsubscribeAll client channels).2 := by
  induction channels with
  | nil => exact quiet_nil
  | cons channel rest ih =>
      simp only [unsubscribeAll]
      split
      · exact Quiet.cons rfl ih
      · exact ih

theorem quiet_unsubscribe (client : Client) (names : List Bytes) (channels : List Channel) :
    Quiet (unsubscribeChannels client names channels).2 := by
  induction names generalizing channels with
  | nil => exact quiet_nil
  | cons name rest ih =>
      simp only [unsubscribeChannels]
      split
      · exact Quiet.cons rfl (ih _)
      · exact ih _

theorem quiet_publish (name message : Bytes) (channels : List Channel) :
    Quiet (pubsubPublishMessage name message channels).1 := by
  simp only [pubsubPublishMessage]
  split
  · exact quiet_nil
  · intro event member
    obtain ⟨node, -, rfl⟩ := List.mem_map.mp member
    rfl

theorem quiet_refuse (server : Server) (sock : Int) (message : String)
    (known : message ∈ refusals) : Quiet (refuse server sock message).events := by
  have plain : ∀ message ∈ refusals, plainReply (.error (ascii message)) = true := by decide
  simp only [refuse]
  split
  · exact quiet_reply sock _ (plain message known)
  · exact quiet_nil

theorem store_string_plain (env : Env) (reading : Nat) (db : Dict) (key value : Bytes)
    (expire : Nat) (answer : Reply) (plain : plainReply answer = true) :
    plainReply (storeString env reading db key value expire answer).reply = true := by
  simp only [storeString]
  split
  · split
    · exact plain
    · exact errors_plain _ (by simp [handlerErrors])
  · exact errors_plain _ (by simp [handlerErrors])

theorem incr_plain (env : Env) (argv : List Bytes) (db : Dict) :
    plainReply (incrCommand env argv db).reply = true := by
  simp only [incrCommand]
  split
  · exact errors_plain _ (by simp [handlerErrors])
  · exact store_string_plain _ _ _ _ _ _ _ rfl

theorem get_plain (env : Env) (argv : List Bytes) (db : Dict) :
    plainReply (getCommand env argv db).reply = true := by
  simp only [getCommand]
  split
  · rfl
  · split <;> rfl

theorem expire_plain (env : Env) (argv : List Bytes) (db : Dict) :
    plainReply (expireCommand env argv db).reply = true := by
  simp only [expireCommand]
  split <;> rfl

theorem ttl_plain (env : Env) (argv : List Bytes) (db : Dict) :
    plainReply (ttlCommand env argv db).reply = true := by
  simp only [ttlCommand]
  split
  · rfl
  · split
    · rfl
    · split <;> rfl

theorem handler_quiet (execute : Nat → Bytes → Server → Outcome) (env : Env) (sock : Int)
    (argv : List Bytes) (server : Server) (command : Command)
    (direct : command ≠ .multi ∧ command ≠ .exec ∧ command ≠ .discard) :
    Quiet (runHandler execute env sock argv server command).events := by
  cases command with
  | multi => exact absurd rfl direct.1
  | exec => exact absurd rfl direct.2.1
  | discard => exact absurd rfl direct.2.2
  | set => exact quiet_reply sock _ (store_string_plain _ _ _ _ _ _ _ ok_plain)
  | get => exact quiet_reply sock _ (get_plain env argv server.db)
  | del => exact quiet_reply sock _ rfl
  | exist => exact quiet_reply sock _ rfl
  | expire => exact quiet_reply sock _ (expire_plain env argv server.db)
  | ttl => exact quiet_reply sock _ (ttl_plain env argv server.db)
  | incr => exact quiet_reply sock _ (incr_plain env argv server.db)
  | role => exact Quiet.cons rfl quiet_nil
  | ping =>
      have pong : plainReply (.string (ascii "PONG")) = true := by decide
      simp only [runHandler, pingCommand]
      split
      · exact quiet_reply sock _ rfl
      · exact quiet_reply sock _ pong
  | save =>
      simp only [runHandler, saveCommand]
      split
      · exact quiet_reply sock _ ok_plain
      · exact quiet_error sock _ (by simp [handlerErrors])
  | bgsave =>
      have started : plainReply (.string (ascii "Background saving started")) = true := by decide
      simp only [runHandler, bgsaveCommand]
      split
      · exact Quiet.cons rfl (quiet_reply sock _ started)
      · exact quiet_error sock _ (by simp [handlerErrors])
  | replicaof =>
      simp only [runHandler, replicaofCommand]
      split
      · exact (quiet_close server.repl).append (quiet_reply sock _ ok_plain)
      · split
        · exact quiet_error sock _ (by simp [handlerErrors])
        · split
          · exact (quiet_set_primary _ _ _ _ _).append (quiet_reply sock _ ok_plain)
          · exact (quiet_set_primary _ _ _ _ _).append (quiet_error sock _ (by simp [handlerErrors]))
  | replconf =>
      simp only [runHandler, replconfCommand]
      split
      · apply Quiet.append _ (quiet_reply sock _ ok_plain)
        simp only [addReplica]
        split
        · exact quiet_sync _ _ _
        · exact quiet_nil
      · exact quiet_reply sock _ ok_plain
  | subscribe =>
      simp only [runHandler, subscribeCommand]
      split
      · exact quiet_error sock _ (by simp [handlerErrors])
      · simp only [pubsubSubscribeClient]
        split
        · exact quiet_error _ _ (by simp [handlerErrors])
        · exact quiet_subscribe _ _ _ _ _ _ _
  | unsubscribe =>
      simp only [runHandler, unsubscribeCommand]
      split
      · exact quiet_error sock _ (by simp [handlerErrors])
      · simp only [pubsubUnsubscribeClient]
        split
        · dsimp only
          split
          · exact Quiet.cons rfl quiet_nil
          · exact quiet_unsubscribe_all _ _
        · exact quiet_unsubscribe _ _ _
  | publish =>
      simp only [runHandler, publishCommand]
      split
      · exact quiet_error sock _ (by simp [handlerErrors])
      · exact (quiet_publish _ _ _).append (quiet_reply sock _ rfl)

theorem propagate_quiet (env : Env) (sock : Int) (input name : Bytes) (outcome : Outcome)
    (quiet : Quiet outcome.events) : Quiet (propagate env sock input name outcome).events := by
  rw [propagate_eq]
  split
  · exact quiet.append (quiet_fed env input outcome.server)
  · exact quiet

end Events

section Steps

/-- The effect of one input on the client list, with the answers that tell. `ok`
    is the outcome of the allocations of `tx_execute_commands`. -/
inductive Transition (ok : Bool) (sock : Int) (input : Bytes) (before after : ClientList)
    (events : List Event) : Prop where
  | quiet (same : after = before) (silent : Quiet events)
      (unopened : lower (tokens input) = [ascii "multi"] → .reply sock okReply ∉ events)
  | queued (client : Client) (found : getClientBySocket sock before = some client)
      (inside : client.inTransaction = true) (capacity : Nat) (nonempty : tokens input ≠ [])
      (direct : isTxCommand (commandName input) = false)
      (updated : after = updateClient sock (enqueue input capacity) before)
      (answer : events = [.reply sock queuedReply])
  | failed (client : Client) (found : getClientBySocket sock before = some client)
      (inside : client.inTransaction = true) (capacity : Nat)
      (direct : isTxCommand (commandName input) = false)
      (updated : after = updateClient sock (fun client => markFailed (grow capacity client)) before)
      (answer : events = [.reply sock queueFailedReply])
  | started (client : Client) (found : getClientBySocket sock before = some client)
      (outside : client.inTransaction = false) (alone : lower (tokens input) = [ascii "multi"])
      (updated : after = updateClient sock beginTransaction before)
      (answer : events = [.reply sock okReply])
  | executed (client : Client) (found : getClientBySocket sock before = some client)
      (inside : client.inTransaction = true) (alone : lower (tokens input) = [ascii "exec"])
      (updated : after = updateClient sock txCleanup before)
      (ran : executedInputs sock events =
        if client.transactionErrors || !ok then [] else client.queuedCommands)
      (silent : .reply sock queuedReply ∉ events ∧ .reply sock queueFailedReply ∉ events)
  | discarded (client : Client) (found : getClientBySocket sock before = some client)
      (inside : client.inTransaction = true) (alone : lower (tokens input) = [ascii "discard"])
      (updated : after = updateClient sock txCleanup before) (silent : Quiet events)

/-- An error answer is no answer that tells of a transaction. -/
theorem error_transition (sock : Int) (input : Bytes) (clients : ClientList) (ok : Bool)
    (message : String) (known : message ∈ handlerErrors) :
    Transition ok sock input clients clients [.reply sock (.error (ascii message))] :=
  .quiet rfl (quiet_error sock message known) fun _ => by simp [okReply]

theorem outside_of_found (sock : Int) (server : Server) (client : Client)
    (found : findClient sock server = some client) (outside : client.inTransaction = false) :
    inTransaction sock server = false := by
  simp [inTransaction, found, outside]

theorem found_of_inside (sock : Int) (server : Server) (inside : inTransaction sock server = true) :
    ∃ client, findClient sock server = some client ∧ client.inTransaction = true := by
  simp only [inTransaction, Bool.and_eq_true] at inside
  cases found : findClient sock server with
  | none => simp [found] at inside
  | some client => exact ⟨client, rfl, by simpa [found] using inside.2⟩

theorem find_modify (sock : Int) (change : Client → Client) (keeps : KeepsSocket change)
    (server : Server) :
    findClient sock (modifyClient sock change server) = (findClient sock server).map change := by
  simp [findClient, modifyClient, get_update sock sock change keeps]

theorem cleanup_keeps : KeepsSocket txCleanup := fun _ => rfl

theorem begin_keeps : KeepsSocket beginTransaction := fun _ => rfl

theorem enqueue_keeps (cmd : Bytes) (capacity : Nat) : KeepsSocket (enqueue cmd capacity) :=
  fun _ => rfl

theorem failed_keeps (capacity : Nat) : KeepsSocket fun client => markFailed (grow capacity client) :=
  fun _ => rfl

/-- After the cleanup of EXEC the connection is outside of its transaction. -/
theorem cleaned_outside (sock : Int) (server : Server) :
    inTransaction sock (modifyClient sock txCleanup server) = false := by
  simp only [inTransaction, find_modify sock txCleanup cleanup_keeps]
  cases findClient sock server <;> simp [txCleanup]

theorem direct_quiet (execute : Nat → Bytes → Server → Outcome) (env : Env) (sock : Int)
    (buffer : Bytes) (server : Server) (outside : inTransaction sock server = false)
    (direct : isTxCommand (commandName (cstr buffer)) = false) :
    Quiet (executeWith execute env sock buffer server).events := by
  have ran := execute_with_cases execute env sock buffer server
  generalize executeWith execute env sock buffer server = outcome at ran
  cases ran with
  | refused message known => exact quiet_refuse server sock message known
  | queued nonempty inside => simp [inside] at outside
  | ran row member named =>
      apply propagate_quiet
      exact handler_quiet execute env sock _ server row.command
        (direct_row row member (named ▸ direct))

/-- The loop of EXEC over queued inputs, each run outside of a transaction. -/
theorem run_queued_direct (execute : Nat → Bytes → Server → Outcome)
    (nested : Nat → Nat → Bytes → Server → Outcome) (envs : Nat → Env) (sock : Int)
    (runs : ∀ index cmd server, execute index cmd server =
      executeWith (nested index) (envs index) sock cmd server)
    (cmds : List Bytes) (direct : ∀ cmd ∈ cmds, isTxCommand (commandName (cstr cmd)) = false)
    (index : Nat) (server : Server) (outside : inTransaction sock server = false) :
    SameClients server (runQueued execute sock index cmds server).1 ∧
      executedInputs sock (runQueued execute sock index cmds server).2 = cmds ∧
      .reply sock queuedReply ∉ (runQueued execute sock index cmds server).2 ∧
      .reply sock queueFailedReply ∉ (runQueued execute sock index cmds server).2 := by
  induction cmds generalizing index server with
  | nil => exact ⟨SameClients.refl server, rfl, by simp [runQueued], by simp [runQueued]⟩
  | cons cmd rest ih =>
      have first := direct cmd List.mem_cons_self
      have same := (direct_execution (nested index) (envs index) sock cmd server outside first).1
      have quiet := direct_quiet (nested index) (envs index) sock cmd server outside first
      rw [← runs index cmd server] at same quiet
      obtain ⟨later, inputs, noQueued, noFailed⟩ :=
        ih (fun other member => direct other (List.mem_cons_of_mem cmd member)) (index + 1)
          (execute index cmd server).server (by rw [same.inTransaction, outside])
      obtain ⟨quietQueued, quietFailed⟩ := quiet.answers sock
      refine ⟨same.trans later, ?_, ?_, ?_⟩
      · have silent := quiet.executed sock
        simp [runQueued, silent, inputs]
      · simp only [runQueued, List.cons_append, List.mem_cons, List.mem_append]
        rintro (wrong | early | late)
        · simp at wrong
        · exact quietQueued early
        · exact noQueued late
      · simp only [runQueued, List.cons_append, List.mem_cons, List.mem_append]
        rintro (wrong | early | late)
        · simp at wrong
        · exact quietFailed early
        · exact noFailed late

/-- What the classification needs of the listed clients. -/
structure QueuesReady (clients : ClientList) : Prop where
  positive : ∀ client ∈ listed clients, 0 ≤ client.socket
  queueable : ∀ client ∈ listed clients, ∀ cmd ∈ client.queuedCommands, Queueable cmd

theorem QueuesReady.direct {clients : ClientList} (ready : QueuesReady clients) (client : Client)
    (member : client ∈ listed clients) :
    ∀ cmd ∈ client.queuedCommands, isTxCommand (commandName (cstr cmd)) = false := by
  intro cmd queued
  have queueable := ready.queueable client member cmd queued
  rw [cstr_of_nul_free cmd queueable.plain.free]
  exact queueable.direct

/-- The replication thread's descriptor is no client's. -/
theorem QueuesReady.thread_absent {clients : ClientList} (ready : QueuesReady clients) :
    getClientBySocket (-1) clients = none := by
  cases found : getClientBySocket (-1) clients with
  | none => rfl
  | some client =>
      obtain ⟨member, socket⟩ := get_mem _ _ _ found
      have positive := ready.positive client member
      omega

theorem multi_transition (execute : Nat → Bytes → Server → Outcome) (env : Env) (sock : Int)
    (input : Bytes) (argv : List Bytes) (server : Server) (ok : Bool)
    (alone : lower (tokens input) = [ascii "multi"]) :
    Transition ok sock input server.clientList
      (runHandler execute env sock argv server .multi).server.clientList
      (runHandler execute env sock argv server .multi).events := by
  simp only [runHandler, multiCommand]
  split
  · exact error_transition sock input _ ok _ (by simp [handlerErrors])
  case h_2 client found =>
    split
    · exact error_transition sock input _ ok _ (by simp [handlerErrors])
    case isFalse outside =>
      exact .started client found (by simpa using outside) alone rfl rfl

theorem discard_accepted (execute : Nat → Bytes → Server → Outcome) (env : Env) (sock : Int)
    (argv : List Bytes) (server : Server) (client : Client)
    (found : findClient sock server = some client) (inside : client.inTransaction = true) :
    (runHandler execute env sock argv server .discard).server.clientList =
        updateClient sock txCleanup server.clientList ∧
      Quiet (runHandler execute env sock argv server .discard).events := by
  simp only [runHandler, discardCommand, found, inside, ↓reduceIte]
  exact ⟨rfl, Quiet.cons ok_plain (quiet_reply sock _ ok_plain)⟩

theorem discard_transition (execute : Nat → Bytes → Server → Outcome) (env : Env) (sock : Int)
    (input : Bytes) (argv : List Bytes) (server : Server) (ok : Bool)
    (alone : lower (tokens input) = [ascii "discard"]) :
    Transition ok sock input server.clientList
      (runHandler execute env sock argv server .discard).server.clientList
      (runHandler execute env sock argv server .discard).events := by
  cases found : findClient sock server with
  | none =>
      simp only [runHandler, discardCommand, found]
      exact error_transition sock input _ _ _ (by simp [handlerErrors])
  | some client =>
      cases inside : client.inTransaction with
      | true =>
          obtain ⟨cleaned, silent⟩ := discard_accepted execute env sock argv server client found inside
          exact .discarded client found inside alone cleaned silent
      | false =>
          simp only [runHandler, discardCommand, found, inside, Bool.false_eq_true, ↓reduceIte]
          exact error_transition sock input _ _ _ (by simp [handlerErrors])

theorem exec_accepted (execute : Nat → Bytes → Server → Outcome)
    (nested : Nat → Nat → Bytes → Server → Outcome) (envs : Nat → Env) (env : Env) (sock : Int)
    (runs : ∀ index cmd server, execute index cmd server =
      executeWith (nested index) (envs index) sock cmd server)
    (argv : List Bytes) (server : Server) (ready : QueuesReady server.clientList) (client : Client)
    (found : findClient sock server = some client) (inside : client.inTransaction = true) :
    (runHandler execute env sock argv server .exec).server.clientList =
        updateClient sock txCleanup server.clientList ∧
      executedInputs sock (runHandler execute env sock argv server .exec).events =
        (if client.transactionErrors || !env.alloc .txCommands then [] else client.queuedCommands) ∧
      .reply sock queuedReply ∉ (runHandler execute env sock argv server .exec).events ∧
      .reply sock queueFailedReply ∉ (runHandler execute env sock argv server .exec).events := by
  -- The forced reset finds `in_transaction` already cleared.
  have reset (clients : ClientList) : updateClient sock leaveTransaction
      (updateClient sock txCleanup clients) = updateClient sock txCleanup clients :=
    update_update sock txCleanup leaveTransaction cleanup_keeps clients
  obtain ⟨member, socket⟩ := get_mem sock server.clientList client found
  simp only [runHandler, execCommand, found, inside, ↓reduceIte, txExecuteCommands, socket]
  split
  case isTrue errors =>
    have silent := quiet_error sock "EXECABORT Transaction discarded because of previous errors"
      (by simp [handlerErrors])
    exact ⟨reset _, by simp [errors, silent.executed sock], silent.answers sock⟩
  case isFalse fine =>
    split
    case isTrue allocated =>
      obtain ⟨same, inputs, noQueued, noFailed⟩ := run_queued_direct execute nested envs sock runs
        client.queuedCommands (ready.direct client member) 0
        (modifyClient sock txCleanup server) (cleaned_outside sock server)
      refine ⟨?_, ?_, ?_, ?_⟩
      · have list := same.clientList
        simp only [modifyClient] at list ⊢
        rw [list]
        exact reset _
      · have errors : client.transactionErrors = false := by simpa using fine
        simp only [errors, allocated, Bool.not_true, Bool.or_false, Bool.false_eq_true, ↓reduceIte]
        exact inputs
      · simpa using noQueued
      · simpa using noFailed
    case isFalse denied =>
      have silent := quiet_error sock "ERR out of memory during transaction execution"
        (by simp [handlerErrors])
      exact ⟨reset _, by simp [denied, silent.executed sock], silent.answers sock⟩

theorem exec_transition (execute : Nat → Bytes → Server → Outcome)
    (nested : Nat → Nat → Bytes → Server → Outcome) (envs : Nat → Env) (env : Env) (sock : Int)
    (runs : ∀ index cmd server, execute index cmd server =
      executeWith (nested index) (envs index) sock cmd server)
    (input : Bytes) (argv : List Bytes) (server : Server) (ready : QueuesReady server.clientList)
    (alone : lower (tokens input) = [ascii "exec"]) :
    Transition (env.alloc .txCommands) sock input server.clientList
      (runHandler execute env sock argv server .exec).server.clientList
      (runHandler execute env sock argv server .exec).events := by
  cases found : findClient sock server with
  | none =>
      simp only [runHandler, execCommand, found]
      exact error_transition sock input _ _ _ (by simp [handlerErrors])
  | some client =>
      cases inside : client.inTransaction with
      | true =>
          obtain ⟨cleaned, ran, silent⟩ := exec_accepted execute nested envs env sock runs argv server
            ready client found inside
          exact .executed client found inside alone cleaned ran silent
      | false =>
          simp only [runHandler, execCommand, found, inside, Bool.false_eq_true, ↓reduceIte]
          exact error_transition sock input _ _ _ (by simp [handlerErrors])

theorem queue_transition (env : Env) (sock : Int) (input : Bytes) (server : Server) (ok : Bool)
    (inside : inTransaction sock server = true) (nonempty : tokens input ≠ [])
    (direct : isTxCommand (commandName input) = false) :
    Transition ok sock input server.clientList (queueInput env sock input server).server.clientList
      (queueInput env sock input server).events := by
  obtain ⟨client, found, inTx⟩ := found_of_inside sock server inside
  simp only [queueInput, found]
  rcases queue_command_cases (env.alloc .queueArray) (env.alloc .queueCopy) client input with
    ⟨capacity, queued⟩ | ⟨capacity, failed⟩
  · simp only [queued, ↓reduceIte]
    refine .queued client found inTx capacity nonempty direct (update_congr _ _ _ _ ?_) rfl
    intro other same
    rw [Option.some.inj (found.symm.trans same)]
  · simp only [failed, Bool.false_eq_true, ↓reduceIte]
    refine .failed client found inTx capacity direct (update_congr _ _ _ _ ?_) rfl
    intro other same
    rw [Option.some.inj (found.symm.trans same)]

theorem propagate_tx (env : Env) (sock : Int) (input : Bytes) (outcome : Outcome)
    (tx : isTxCommand (commandName input) = true) :
    propagate env sock input (commandName input) outcome = outcome := by
  have reads : isWriteCommand (commandName input) = false := by
    simp only [isTxCommand, Bool.or_eq_true, decide_eq_true_eq] at tx
    rcases tx with (name | name) | name <;> (rw [name]; decide)
  simp [propagate, reads]

/-- The transaction commands take no arguments. -/
theorem tx_alone (row : CommandDef) (member : row ∈ commands) (tx : isTxCommand row.name = true)
    (argv : List Bytes) (arity : wrongArity row argv.length = false)
    (named : row.name = arg (lower argv) 0) : lower argv = [row.name] := by
  obtain ⟨-, least, most⟩ := tx_rows row member tx
  have count : argv.length = 1 := by
    simp only [wrongArity, least, most, Bool.or_eq_false_iff, Bool.and_eq_false_iff,
      decide_eq_false_iff_not] at arity
    omega
  cases argv with
  | nil => simp at count
  | cons name args =>
      have none : args = [] := List.length_eq_zero_iff.mp (by simpa using count)
      subst none
      simp [lower, named, arg]

theorem exec_alone (row : CommandDef) (member : row ∈ commands) (exec : row.command = .exec)
    (argv : List Bytes) (arity : wrongArity row argv.length = false)
    (named : row.name = arg (lower argv) 0) : lower argv = [ascii "exec"] := by
  have name := exec_name row member exec
  rw [tx_alone row member (by rw [name, exec_tx]) argv arity named, name]

theorem alone_tx (input name : Bytes) (alone : lower (tokens input) = [name]) :
    tokens input ≠ [] ∧ commandName input = name :=
  ⟨fun empty => by simp [empty, lower] at alone, by simp [commandName, alone, arg]⟩

/-- A transaction command alone reaches its handler, inside a transaction or not. -/
theorem tx_runs (oracle : Oracle) (sock : Int) (buffer : Bytes) (server : Server)
    (copied : (oracle []).alloc .inputCopy = true) (tokenized : (oracle []).alloc .tokens = true)
    (row : CommandDef) (member : row ∈ commands) (tx : isTxCommand row.name = true)
    (alone : lower (tokens (cstr buffer)) = [row.name]) :
    executeCommand oracle sock buffer server =
      runHandler (fun index cmd server => executeCommandAt 0 (oracle.inner index) sock cmd server)
        (oracle []) sock [row.name] server row.command := by
  obtain ⟨nonempty, name⟩ := alone_tx _ _ alone
  obtain ⟨-, least, most⟩ := tx_rows row member tx
  have arity : wrongArity row 1 = false := by simp [wrongArity, least, most]
  have first := row_of_name row member
  simp only [executeCommand]
  rw [executeCommandAt, execute_allocated _ _ _ _ _ copied tokenized nonempty,
    propagate_tx _ _ _ _ (by rw [name, tx])]
  simp [name, tx, alone, dispatch, arg, first, arity]

/-- Every input makes one of the six transitions. -/
theorem execute_with_transition (execute : Nat → Bytes → Server → Outcome)
    (nested : Nat → Nat → Bytes → Server → Outcome) (envs : Nat → Env) (env : Env) (sock : Int)
    (runs : ∀ index cmd server, execute index cmd server =
      executeWith (nested index) (envs index) sock cmd server)
    (buffer : Bytes) (server : Server) (ready : QueuesReady server.clientList) :
    Transition (env.alloc .txCommands) sock (cstr buffer) server.clientList
      (executeWith execute env sock buffer server).server.clientList
      (executeWith execute env sock buffer server).events := by
  have ran := execute_with_cases execute env sock buffer server
  generalize executeWith execute env sock buffer server = outcome at ran
  cases ran with
  | refused message known =>
      refine .quiet rfl (quiet_refuse server sock message known) fun _ member => ?_
      simp only [refuse] at member
      split at member <;> simp [okReply] at member
  | queued nonempty inside direct =>
      exact queue_transition env sock (cstr buffer) server _ inside nonempty direct
  | ran row member named arity allowed =>
      cases tx : isTxCommand (commandName (cstr buffer)) with
      | false =>
          have apart := direct_row row member (named ▸ tx)
          have same := (handler_same_clients execute env sock (lower (tokens (cstr buffer))) server
            row.command apart).trans (propagate_same_clients env sock (cstr buffer)
              (commandName (cstr buffer)) _)
          refine .quiet same.clientList (propagate_quiet _ _ _ _ _
            (handler_quiet execute env sock _ server row.command apart)) fun alone => ?_
          rw [(alone_tx _ _ alone).2, multi_tx] at tx
          contradiction
      | true =>
          rw [propagate_tx env sock (cstr buffer) _ tx]
          have alone := tx_alone row member (by rw [named, tx]) (tokens (cstr buffer)) arity
            (by rw [named]; rfl)
          rcases (tx_rows row member (by rw [named, tx])).1 with same | same | same
          · rw [same]
            rw [multi_name row member same] at alone
            exact multi_transition execute env sock _ _ server _ alone
          · rw [same]
            rw [exec_name row member same] at alone
            exact exec_transition execute nested envs env sock runs _ _ server ready alone
          · rw [same]
            rw [discard_name row member same] at alone
            exact discard_transition execute env sock _ _ server _ alone

theorem execute_transition (oracle : Oracle) (sock : Int) (buffer : Bytes) (server : Server)
    (ready : QueuesReady server.clientList) :
    Transition ((oracle []).alloc .txCommands) sock (cstr buffer) server.clientList
      (executeCommand oracle sock buffer server).server.clientList
      (executeCommand oracle sock buffer server).events :=
  execute_with_transition _ (fun _ _ _ server => ⟨server, [], .unknown⟩)
    (fun index => oracle.inner index []) (oracle []) sock (fun _ _ _ => rfl) buffer server ready

end Steps

section Depth

/-- Queued inputs do not use what would run theirs. -/
theorem run_queued_congr (first second : Nat → Bytes → Server → Outcome)
    (nested other : Nat → Nat → Bytes → Server → Outcome) (envs : Nat → Env) (sock : Int)
    (runsFirst : ∀ index cmd server, first index cmd server =
      executeWith (nested index) (envs index) sock cmd server)
    (runsSecond : ∀ index cmd server, second index cmd server =
      executeWith (other index) (envs index) sock cmd server)
    (cmds : List Bytes) (direct : ∀ cmd ∈ cmds, isTxCommand (commandName (cstr cmd)) = false)
    (index : Nat) (server : Server) (outside : inTransaction sock server = false) :
    runQueued first sock index cmds server = runQueued second sock index cmds server := by
  induction cmds generalizing index server with
  | nil => rfl
  | cons cmd rest ih =>
      obtain ⟨same, agree⟩ := direct_execution (nested index) (envs index) sock cmd server outside
        (direct cmd List.mem_cons_self)
      have step : second index cmd server = first index cmd server := by
        rw [runsFirst, runsSecond]
        exact agree (other index)
      rw [← runsFirst index cmd server] at same
      have later := ih (fun late member => direct late (List.mem_cons_of_mem cmd member))
        (index + 1) (first index cmd server).server (by rw [same.inTransaction, outside])
      simp only [runQueued, step, later]

theorem execute_with_congr (first second : Nat → Bytes → Server → Outcome)
    (nested other : Nat → Nat → Bytes → Server → Outcome) (envs : Nat → Env) (env : Env) (sock : Int)
    (runsFirst : ∀ index cmd server, first index cmd server =
      executeWith (nested index) (envs index) sock cmd server)
    (runsSecond : ∀ index cmd server, second index cmd server =
      executeWith (other index) (envs index) sock cmd server)
    (buffer : Bytes) (server : Server) (ready : QueuesReady server.clientList) :
    executeWith first env sock buffer server = executeWith second env sock buffer server := by
  have exec : execCommand first env sock server = execCommand second env sock server := by
    simp only [execCommand]
    split
    case h_1 => rfl
    case h_2 client found =>
      obtain ⟨member, socket⟩ := get_mem sock server.clientList client found
      have loop := run_queued_congr first second nested other envs sock runsFirst runsSecond
        client.queuedCommands (ready.direct client member) 0
        (modifyClient sock txCleanup server) (cleaned_outside sock server)
      simp only [txExecuteCommands, socket, loop]
  have handlers (argv : List Bytes) (command : Command) :
      runHandler first env sock argv server command = runHandler second env sock argv server command := by
    by_cases same : command = .exec
    · rw [same]
      exact exec
    · exact handler_execute first second env sock argv server command same
  simp only [executeWith, dispatch, handlers]

/-- One level of recursion is all that a server uses. -/
theorem depth_irrelevant (depth : Nat) (oracle : Oracle) (sock : Int) (buffer : Bytes)
    (server : Server) (ready : QueuesReady server.clientList) :
    executeCommandAt (depth + 1) oracle sock buffer server =
      executeCommand oracle sock buffer server := by
  cases depth with
  | zero => rfl
  | succ depth =>
      exact execute_with_congr _ _
        (fun index position cmd server =>
          executeCommandAt depth ((oracle.inner index).inner position) sock cmd server)
        (fun _ _ _ server => ⟨server, [], .unknown⟩) (fun index => oracle.inner index [])
        (oracle []) sock (fun _ _ _ => rfl) (fun _ _ _ => rfl) buffer server ready

end Depth

end CrimsonCache.TransactionSteps
