import CrimsonCache.ChannelHolders
import CrimsonCache.ExecLoop

/-!
The replies that one call makes on one connection. A reply is what a reply helper or a plain `write`
sends to its socket; what a replica on the same socket is sent is none. The
header that EXEC announces and the replies behind it count as one.
-/

namespace CrimsonCache.RequestReplies

open CString Dictionary Replies Transaction Pubsub Replication Tokenizer ServerState DataCommands
  Commands TransactionSteps Connections ReplicationThread ServerRuns SubscriberLists ChannelHolders
  ExecLoop

def isReply (sock : Int) : Event → Bool
  | .reply fd _ => fd = sock
  | .write fd _ => fd = sock
  | _ => false

def replies (sock : Int) (events : List Event) : List Event := events.filter (isReply sock)

/-- One reply, or the header for the announced commands with as many replies behind it. -/
def RepliesOnce (sock : Int) (announced : Option (List Bytes)) (events : List Event) : Prop :=
  match announced with
  | none => (replies sock events).length = 1
  | some cmds => ∃ answers,
      replies sock events = .write sock (arrayHeader cmds.length) :: answers ∧
        answers.length = cmds.length

/-- The queue that the input makes the server run. -/
def announced (oracle : Oracle) (sock : Int) (buffer : Bytes) (server : Server) :
    Option (List Bytes) :=
  if lower (tokens (cstr buffer)) = [ascii "exec"] then execQueue oracle sock server else none

/-- The input is a SUBSCRIBE or an UNSUBSCRIBE. -/
def Subscribes (input : Bytes) : Prop :=
  commandName input = ascii "subscribe" ∨ commandName input = ascii "unsubscribe"

instance (input : Bytes) : Decidable (Subscribes input) := inferInstanceAs (Decidable (_ ∨ _))

/-- The input closes an open transaction by a DISCARD. -/
def Discards (env : Env) (sock : Int) (buffer : Bytes) (server : Server) : Prop :=
  lower (tokens (cstr buffer)) = [ascii "discard"] ∧ inTransaction sock server = true ∧
    env.alloc .inputCopy = true ∧ env.alloc .tokens = true

section Events

variable (sock : Int)

@[simp] theorem replies_nil : replies sock [] = [] := rfl

@[simp] theorem replies_append (first second : List Event) :
    replies sock (first ++ second) = replies sock first ++ replies sock second := by
  simp [replies]

@[simp] theorem replies_reply (fd : Int) (answer : Reply) (rest : List Event) :
    replies sock (.reply fd answer :: rest) =
      if fd = sock then .reply fd answer :: replies sock rest else replies sock rest := by
  by_cases hit : fd = sock <;> simp [replies, isReply, hit]

@[simp] theorem replies_write (fd : Int) (data : Bytes) (rest : List Event) :
    replies sock (.write fd data :: rest) =
      if fd = sock then .write fd data :: replies sock rest else replies sock rest := by
  by_cases hit : fd = sock <;> simp [replies, isReply, hit]

@[simp] theorem replies_executing (fd : Int) (input : Bytes) (rest : List Event) :
    replies sock (.executing fd input :: rest) = replies sock rest := by
  simp [replies, isReply]

@[simp] theorem replies_closed (fd : Int) (rest : List Event) :
    replies sock (.closed fd :: rest) = replies sock rest := by
  simp [replies, isReply]

@[simp] theorem replies_forked (db : Dict) (rest : List Event) :
    replies sock (.forked db :: rest) = replies sock rest := by
  simp [replies, isReply]

theorem replies_feed (cmd : Bytes) (delivery : Nat → Delivery) (replicas : List Replica) :
    replies sock (feedWrites cmd delivery replicas) = [] := by
  induction replicas generalizing delivery with
  | nil => rfl
  | cons replica rest ih => simpa [feedWrites, replies, isReply] using ih _

theorem replies_fed (env : Env) (input : Bytes) (server : Server) :
    replies sock (fedEvents env input server) = [] := by
  simp only [fedEvents, replicationFeedSlaves]
  split
  · have silent := replies_feed sock (framed (env.alloc .feedCopy) input) env.delivery
      server.repl.replicas
    simpa [replies, isReply] using silent
  · rfl

theorem replies_sync (fd : Int) (envs : Nat → SyncEnv) (entries : List DictEntry) :
    replies sock (syncEntries fd envs entries) = [] := by
  induction entries generalizing envs with
  | nil => rfl
  | cons entry rest ih =>
      have first : replies sock (syncEntry (envs 0) fd entry) = [] := by
        simp only [syncEntry, syncExpire]
        split
        · rfl
        · split
          · split
            · split
              · split <;> rfl
              · rfl
            · rfl
          · rfl
      simp [syncEntries, first, ih]

theorem replies_close (repl : ReplicationInfo) : replies sock (closePrimary repl).2 = [] := by
  simp only [closePrimary]
  split <;> rfl

/-- What goes to a new primary does not go to a descriptor in use. -/
theorem replies_set_primary (connect : Connect) (elsewhere : connect ≠ .connected sock) (port : Int)
    (host : Bytes) (primaryPort : Int) (repl : ReplicationInfo) :
    replies sock (replicationSetPrimary connect port host primaryPort repl).2.2 = [] := by
  have closing := replies_close sock repl
  simp only [replicationSetPrimary]
  cases connect with
  | unresolved => exact closing
  | refused => exact closing
  | connected fd =>
      have other : fd ≠ sock := fun same => elsewhere (by rw [same])
      simp [closing, other]

/-- No node of a channel stands for the connection. -/
def Unheard (channels : List Channel) : Prop :=
  ∀ name, ∀ node ∈ subscribersOf name channels, node.socket ≠ sock

theorem replies_publish (channels : List Channel) (unheard : Unheard sock channels)
    (name message : Bytes) : replies sock (pubsubPublishMessage name message channels).1 = [] := by
  have nodes := unheard name
  simp only [pubsubPublishMessage, subscribersOf] at nodes ⊢
  split
  · rfl
  case h_2 channel found =>
    simp only [found] at nodes
    simp only [replies, List.filter_map, List.map_eq_nil_iff, List.filter_eq_nil_iff]
    intro node member
    simpa [isReply] using nodes node member

theorem replies_subscribe (channel node : Nat → Bool) (client : Client)
    (other : client.socket ≠ sock) (index count : Nat) (names : List Bytes) (channels : List Channel) :
    replies sock (subscribeChannels channel node client index count names channels).2 = [] := by
  induction names generalizing index count channels with
  | nil => rfl
  | cons name rest ih =>
      simp only [subscribeChannels]
      split <;> simp [other, ih]

theorem replies_unsubscribe_all (client : Client) (other : client.socket ≠ sock)
    (channels : List Channel) : replies sock (unsubscribeAll client channels).2 = [] := by
  induction channels with
  | nil => rfl
  | cons channel rest ih =>
      simp only [unsubscribeAll]
      split <;> simp [other, ih]

theorem replies_unsubscribe (client : Client) (other : client.socket ≠ sock) (names : List Bytes)
    (channels : List Channel) : replies sock (unsubscribeChannels client names channels).2 = [] := by
  induction names generalizing channels with
  | nil => rfl
  | cons name rest ih =>
      simp only [unsubscribeChannels]
      split <;> simp [other, ih]

end Events

section Handlers

/-- On its own connection a handler replies once, in whatever way it ends. -/
theorem handler_replies (execute : Nat → Bytes → Server → Outcome) (env : Env) (sock : Int)
    (elsewhere : env.connect ≠ .connected sock) (argv : List Bytes) (server : Server)
    (unheard : Unheard sock server.channels) (command : Command)
    (apart : command ≠ .exec ∧ command ≠ .discard ∧ command ≠ .subscribe ∧ command ≠ .unsubscribe) :
    (replies sock (runHandler execute env sock argv server command).events).length = 1 := by
  cases command with
  | exec => exact absurd rfl apart.1
  | discard => exact absurd rfl apart.2.1
  | subscribe => exact absurd rfl apart.2.2.1
  | unsubscribe => exact absurd rfl apart.2.2.2
  | set | get | del | exist | expire | ttl | incr => simp [runHandler, answered]
  | role => simp [runHandler, roleCommand]
  | ping | save | bgsave =>
      simp only [runHandler, pingCommand, saveCommand, bgsaveCommand, replied]
      split <;> simp
  | multi =>
      simp only [runHandler, multiCommand, replied]
      split
      · simp
      · split <;> simp
  | replicaof =>
      have closing := replies_close sock server.repl
      have connecting := replies_set_primary sock env.connect elsewhere server.config.port (arg argv 1)
        (atoi (arg argv 2)) server.repl
      simp only [runHandler, replicaofCommand, replied]
      split
      · simp [replicationUnsetPrimary, closing]
      · split
        · simp
        · split <;> simp [connecting]
  | replconf =>
      simp only [runHandler, replconfCommand, addReplica, replied]
      split
      · split
        · simp [syncReplica, replies_sync]
        · simp
      · simp
  | publish =>
      simp only [runHandler, publishCommand, replied]
      split
      · simp
      · simp [replies_publish sock server.channels unheard]

theorem discard_replies (execute : Nat → Bytes → Server → Outcome) (env : Env) (sock : Int)
    (connected : 0 ≤ sock) (argv : List Bytes) (server : Server) :
    (replies sock (runHandler execute env sock argv server .discard).events).length =
      if inTransaction sock server then 2 else 1 := by
  cases found : findClient sock server with
  | none => simp [runHandler, discardCommand, replied, inTransaction, found]
  | some client =>
      cases inside : client.inTransaction <;>
        simp [runHandler, discardCommand, replied, inTransaction, found, inside, connected]

/-- A handler says nothing on the other connections but to subscribers. -/
theorem handler_elsewhere (execute : Nat → Bytes → Server → Outcome) (env : Env) (sock other : Int)
    (apart : other ≠ sock) (argv : List Bytes) (server : Server) (command : Command)
    (elsewhere : command = .replicaof → env.connect ≠ .connected sock)
    (unheard : command = .publish → Unheard sock server.channels) (direct : command ≠ .exec) :
    replies sock (runHandler execute env other argv server command).events = [] := by
  cases command with
  | exec => exact absurd rfl direct
  | set | get | del | exist | expire | ttl | incr => simp [runHandler, answered, apart]
  | role => simp [runHandler, roleCommand, apart]
  | ping | save | bgsave =>
      simp only [runHandler, pingCommand, saveCommand, bgsaveCommand, replied]
      split <;> simp [apart]
  | multi | discard =>
      simp only [runHandler, multiCommand, discardCommand, replied]
      split
      · simp [apart]
      · split <;> simp [apart]
  | replicaof =>
      have closing := replies_close sock server.repl
      have connecting := replies_set_primary sock env.connect (elsewhere rfl) server.config.port
        (arg argv 1) (atoi (arg argv 2)) server.repl
      simp only [runHandler, replicaofCommand, replied]
      split
      · simp [replicationUnsetPrimary, closing, apart]
      · split
        · simp [apart]
        · split <;> simp [connecting, apart]
  | replconf =>
      simp only [runHandler, replconfCommand, addReplica, replied]
      split
      · split
        · simp [syncReplica, replies_sync, apart]
        · simp [apart]
      · simp [apart]
  | publish =>
      simp only [runHandler, publishCommand, replied]
      split
      · simp [apart]
      · simp [replies_publish sock server.channels (unheard rfl), apart]
  | subscribe =>
      simp only [runHandler, subscribeCommand, pubsubSubscribeClient, replied]
      split
      · simp [apart]
      case h_2 client found =>
        have socket : client.socket ≠ sock := (get_mem other _ client found).2 ▸ apart
        split
        · simp [socket]
        · exact replies_subscribe sock _ _ client socket 0 0 _ _
  | unsubscribe =>
      simp only [runHandler, unsubscribeCommand, pubsubUnsubscribeClient, replied]
      split
      · simp [apart]
      case h_2 client found =>
        have socket : client.socket ≠ sock := (get_mem other _ client found).2 ▸ apart
        split
        · dsimp only
          split
          · simp [socket]
          · exact replies_unsubscribe_all sock client socket _
        · exact replies_unsubscribe sock client socket _ _

end Handlers

section Calls

theorem refuse_replies (server : Server) (sock : Int) (connected : 0 ≤ sock) (message : String) :
    (replies sock (refuse server sock message).events).length = 1 := by
  simp [refuse, connected]

theorem propagate_replies (env : Env) (sock other : Int) (input name : Bytes) (outcome : Outcome) :
    replies sock (propagate env other input name outcome).events = replies sock outcome.events := by
  rw [propagate_eq]
  split
  · simp [replies_fed]
  · rfl

theorem queue_replies (env : Env) (sock : Int) (input : Bytes) (server : Server)
    (inside : inTransaction sock server = true) :
    (replies sock (queueInput env sock input server).events).length = 1 := by
  obtain ⟨client, found, -⟩ := found_of_inside sock server inside
  simp only [queueInput, found, replied]
  split <;> simp

theorem subscribe_rows : ∀ row ∈ commands, row.command = .subscribe ∨ row.command = .unsubscribe →
    row.name = ascii "subscribe" ∨ row.name = ascii "unsubscribe" := by decide

/-- An input that is none of the special ones is replied to once. -/
theorem direct_replies (execute : Nat → Bytes → Server → Outcome) (env : Env) (sock : Int)
    (connected : 0 ≤ sock) (elsewhere : env.connect ≠ .connected sock) (buffer : Bytes)
    (server : Server) (unheard : Unheard sock server.channels)
    (noExec : lower (tokens (cstr buffer)) ≠ [ascii "exec"])
    (noDiscard : lower (tokens (cstr buffer)) ≠ [ascii "discard"])
    (noSubscribe : ¬ Subscribes (cstr buffer)) :
    (replies sock (executeWith execute env sock buffer server).events).length = 1 := by
  have ran := execute_with_cases execute env sock buffer server
  generalize executeWith execute env sock buffer server = outcome at ran
  cases ran with
  | refused message => exact refuse_replies server sock connected message
  | queued _ inside => exact queue_replies env sock _ server inside
  | ran row member named arity =>
      rw [propagate_replies]
      apply handler_replies execute env sock elsewhere _ server unheard
      refine ⟨?_, ?_, ?_, ?_⟩
      · exact fun exec => noExec (exec_alone row member exec (tokens (cstr buffer)) arity named)
      · intro same
        have name := discard_name row member same
        have alone := tx_alone row member (by rw [name, discard_tx]) (tokens (cstr buffer)) arity named
        exact noDiscard (alone.trans (by rw [name]))
      · intro same
        have name := subscribe_rows row member (Or.inl same)
        exact noSubscribe (by rwa [named] at name)
      · intro same
        have name := subscribe_rows row member (Or.inr same)
        exact noSubscribe (by rwa [named] at name)

theorem direct_elsewhere (execute : Nat → Bytes → Server → Outcome) (env : Env) (sock other : Int)
    (apart : other ≠ sock) (elsewhere : env.connect ≠ .connected sock) (buffer : Bytes)
    (server : Server) (unheard : Unheard sock server.channels)
    (noExec : lower (tokens (cstr buffer)) ≠ [ascii "exec"]) :
    replies sock (executeWith execute env other buffer server).events = [] := by
  have ran := execute_with_cases execute env other buffer server
  generalize executeWith execute env other buffer server = outcome at ran
  cases ran with
  | refused message =>
      simp only [refuse]
      split <;> simp [apart]
  | queued =>
      simp only [queueInput, replied]
      split
      · rfl
      · split <;> simp [apart]
  | ran row member named arity =>
      rw [propagate_replies]
      apply handler_elsewhere execute env sock other apart _ server _ (fun _ => elsewhere)
        fun _ => unheard
      exact fun exec => noExec (exec_alone row member exec (tokens (cstr buffer)) arity named)

/-- A DISCARD of an open transaction is the one input that is replied to twice. -/
theorem discard_call_replies (oracle : Oracle) (sock : Int) (connected : 0 ≤ sock) (buffer : Bytes)
    (server : Server) (alone : lower (tokens (cstr buffer)) = [ascii "discard"]) :
    (replies sock (executeCommand oracle sock buffer server).events).length = 1 ↔
      ¬ Discards (oracle []) sock buffer server := by
  by_cases missing : (oracle []).alloc .inputCopy = false ∨ (oracle []).alloc .tokens = false
  · obtain ⟨message, same⟩ := unallocated_refused oracle sock buffer server missing
    rw [same, refuse_replies server sock connected message]
    refine iff_of_true rfl ?_
    rintro ⟨-, -, copied, tokenized⟩
    rcases missing with missing | missing
    · simp [copied] at missing
    · simp [tokenized] at missing
  · simp only [not_or, Bool.not_eq_false] at missing
    rcases missing with ⟨copied, tokenized⟩
    rw [tx_runs oracle sock buffer server copied tokenized _ discard_row discard_tx alone,
      discard_replies _ _ sock connected]
    cases inside : inTransaction sock server <;> simp [Discards, alone, inside, copied, tokenized]

theorem replies_runs (sock other : Int) (runs : List HandlerRun) :
    replies sock (runs.flatMap fun run => .executing other run.input :: run.outcome.events) =
      runs.flatMap fun run => replies sock run.outcome.events := by
  induction runs with
  | nil => rfl
  | cons run rest ih => simp [ih]

theorem unheard_of_held (sock : Int) (known holders : List Subscriber) (server : Server)
    (apart : ∀ node ∈ holders, node.socket ≠ sock) (held : Held known holders server) :
    Unheard sock server.channels :=
  fun name node member => apart node (held.enrolled.held name node member)

/-- What each command of a queue establishes while it keeps the channels. -/
theorem queue_each (oracle : Oracle) (sock : Int) (cmds : List Bytes)
    (queueable : ∀ cmd ∈ cmds, Queueable cmd) (known holders : List Subscriber)
    (joins : ∀ cmd ∈ cmds, Joins known holders sock cmd) (Holds : HandlerRun → Prop)
    (each : ∀ index, ∀ cmd ∈ cmds, lower (tokens (cstr cmd)) ≠ [ascii "exec"] →
      ∀ server, Held known holders server →
        Holds ⟨oracle.inner index [], server, cmd,
          executeCommandAt 0 (oracle.inner index) sock cmd server⟩)
    (server : Server) (held : Held known holders server) :
    ∀ run ∈ queuedRuns oracle sock 0 cmds (modifyClient sock txCleanup server), Holds run := by
  refine queued_runs_each oracle sock (Held known holders) Holds cmds ?_ 0 _ ?_
  · intro index cmd member inner kept
    constructor
    · apply each index cmd member ?_ inner kept
      have text : cstr cmd = cmd := cstr_of_nul_free cmd (queueable cmd member).plain.free
      rw [text]
      intro same
      have tx := (queueable cmd member).direct
      rw [(alone_tx cmd _ same).2, exec_tx] at tx
      contradiction
    · refine execute_with_held known holders _ _ _ _ _ (joins cmd member) ?_ kept
      exact fun _ _ _ _ _ _ _ kept => kept
  · refine ⟨fun client member => ?_, held.enrolled⟩
    obtain ⟨old, there, ptr, socket⟩ := update_holders sock txCleanup server.clientList
      (fun _ _ => ⟨rfl, rfl⟩) client member
    have known := held.clients old there
    rwa [subscriber, ptr, socket] at known

/-- An EXEC: its header and one reply for each command, or one error. -/
theorem exec_replies (oracle : Oracle) (sock : Int) (connected : 0 ≤ sock)
    (elsewhere : ∀ path, (oracle path).connect ≠ .connected sock) (buffer : Bytes) (server : Server)
    (ready : QueuesReady server.clientList) (known holders : List Subscriber)
    (apart : ∀ node ∈ holders, node.socket ≠ sock) (held : Held known holders server)
    (alone : lower (tokens (cstr buffer)) = [ascii "exec"])
    (noSubscribe : ∀ client ∈ listed server.clientList, client.socket = sock →
      ∀ cmd ∈ client.queuedCommands, ¬ Subscribes cmd) :
    RepliesOnce sock (execQueue oracle sock server)
      (executeCommand oracle sock buffer server).events := by
  have ran := exec_cases oracle sock buffer server alone
  cases queue : execQueue oracle sock server with
  | none =>
      simp only [queue] at ran
      simp only [RepliesOnce]
      generalize executeCommand oracle sock buffer server = outcome at ran
      cases ran with
      | refused message => exact refuse_replies server sock connected message
      | rejected message => simp [replied]
      | discarded message => simp
  | some cmds =>
      simp only [queue] at ran
      obtain ⟨client, member, socket, same⟩ := exec_queue_client oracle sock server cmds queue
      have queueable := same ▸ ready.queueable client member
      have silent := same ▸ noSubscribe client member socket
      have text (cmd : Bytes) (queued : cmd ∈ cmds) : cstr cmd = cmd :=
        cstr_of_nul_free cmd (queueable cmd queued).plain.free
      have each := queue_each oracle sock cmds queueable known holders
        (fun cmd queued name => absurd (Or.inl (text cmd queued ▸ name)) (silent cmd queued))
        (fun run => (replies sock run.outcome.events).length = 1)
        (fun index cmd queued noExec inner kept => by
          have noDiscard : lower (tokens (cstr cmd)) ≠ [ascii "discard"] := by
            intro same
            have tx := (queueable cmd queued).direct
            rw [text cmd queued] at same
            rw [(alone_tx cmd _ same).2, discard_tx] at tx
            contradiction
          exact direct_replies _ _ sock connected (elsewhere [index]) cmd inner
            (unheard_of_held sock known holders inner apart kept) noExec noDiscard
            (by rw [text cmd queued]; exact silent cmd queued)) server held
      rw [ran]
      simp only [RepliesOnce, queueOutcome, queued_runs_events, replies_write, ↓reduceIte, replies_runs]
      refine ⟨_, rfl, ?_⟩
      rw [← queued_runs_length oracle sock 0 cmds (modifyClient sock txCleanup server),
        List.length_flatMap, List.map_congr_left each]
      simp

theorem exec_elsewhere (oracle : Oracle) (sock other : Int) (different : other ≠ sock)
    (elsewhere : ∀ path, (oracle path).connect ≠ .connected sock) (buffer : Bytes) (server : Server)
    (ready : QueuesReady server.clientList) (known holders : List Subscriber)
    (apart : ∀ node ∈ holders, node.socket ≠ sock) (held : Held known holders server)
    (alone : lower (tokens (cstr buffer)) = [ascii "exec"])
    (joins : ∀ cmd, Joins known holders other cmd) :
    replies sock (executeCommand oracle other buffer server).events = [] := by
  have ran := exec_cases oracle other buffer server alone
  cases queue : execQueue oracle other server with
  | none =>
      simp only [queue] at ran
      generalize executeCommand oracle other buffer server = outcome at ran
      cases ran with
      | refused message =>
          simp only [refuse]
          split <;> simp [different]
      | rejected message => simp [replied, different]
      | discarded message => simp [different]
  | some cmds =>
      simp only [queue] at ran
      obtain ⟨client, member, -, same⟩ := exec_queue_client oracle other server cmds queue
      have each := queue_each oracle other cmds (same ▸ ready.queueable client member) known holders
        (fun cmd _ => joins cmd) (fun run => replies sock run.outcome.events = [])
        (fun index cmd _ noExec inner kept =>
          direct_elsewhere _ _ sock other different (elsewhere [index]) cmd inner
            (unheard_of_held sock known holders inner apart kept) noExec) server held
      rw [ran]
      simp only [queueOutcome, queued_runs_events, replies_write, different, ↓reduceIte, replies_runs]
      exact List.flatMap_eq_nil_iff.mpr each

/-- Another connection's call says nothing on this one. -/
theorem execute_elsewhere (oracle : Oracle) (sock other : Int) (different : other ≠ sock)
    (elsewhere : ∀ path, (oracle path).connect ≠ .connected sock) (buffer : Bytes) (server : Server)
    (ready : QueuesReady server.clientList) (known holders : List Subscriber)
    (apart : ∀ node ∈ holders, node.socket ≠ sock) (held : Held known holders server)
    (joins : ∀ cmd, Joins known holders other cmd) :
    replies sock (executeCommand oracle other buffer server).events = [] := by
  by_cases alone : lower (tokens (cstr buffer)) = [ascii "exec"]
  · exact exec_elsewhere oracle sock other different elsewhere buffer server ready known holders apart
      held alone joins
  · exact direct_elsewhere _ _ sock other different (elsewhere []) buffer server
      (unheard_of_held sock known holders server apart held) alone

end Calls

end CrimsonCache.RequestReplies
