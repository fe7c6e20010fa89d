import CrimsonCache.TransactionQueue
import CrimsonCache.WriteEffects

/-!
The entries of `server_repl.replicas` over whole runs. Only a REPLCONF adds one
and only a failing feed takes one away: neither a second REPLCONF nor the end of
a connection looks at the list. It stays a list of distinct open connections
that asked as long as no run step meets its own socket there.
-/

namespace CrimsonCache.ReplicaList

open CString Dictionary Replies Transaction Replication Tokenizer ServerState DataCommands StoredData
  Commands TransactionSteps Connections ReplicationThread ServerRuns TransactionQueue WriteEffects Runs

def fds (server : Server) : List Int := server.repl.replicas.map (·.fd)

/-- A REPLCONF listening-port. -/
def joins (input : Bytes) : Bool :=
  commandName input = ascii "replconf" && (tokens input).length ≥ 3 &&
    strcaseeq (arg (lower (tokens input)) 1) (ascii "listening-port")

section Asked

/-- Whether the connection of a socket has sent one since it was accepted. -/
def observeAsk (sock : Int) (asked : Bool) : Record → Bool
  | .connected socket => if socket = sock then false else asked
  | .closed socket _ => if socket = sock then false else asked
  | .input socket input _ => asked || (socket = sock && joins input)

def asked (sock : Int) (trace : List Record) : Bool := trace.foldl (observeAsk sock) false

theorem asked_append (sock : Int) (trace : List Record) (record : Record) :
    asked sock (trace ++ [record]) = observeAsk sock (asked sock trace) record := by
  simp [asked]

end Asked

/-- What the checked writes to a socket carry. -/
def writtenTo (fd : Int) (events : List Event) : List Bytes :=
  events.filterMap fun
    | .replicaWrite target data _ => if target = fd then some data else none
    | _ => none

/-- Distinct open connections that asked, each of them fed once. -/
structure Integrity (traced : Traced) : Prop where
  distinct : (fds traced.server).Nodup
  attached : ∀ fd ∈ fds traced.server,
    fd ∈ (openClients traced.server).map (·.socket) ∧ asked fd traced.trace = true
  once : traced.server.repl.role = .primary → ∀ malloc delivery cmd fd,
    writtenTo fd (replicationFeedSlaves malloc delivery cmd traced.server.repl).2 =
      if fd ∈ fds traced.server then [framed malloc cmd] else []

section Condition

/-- An input that adds an entry finds none of its socket, which is a connection's. -/
def FreshInput (env : Env) (sock : Int) (input : Bytes) (server : Server) : Prop :=
  joins input = true → env.alloc .inputCopy = true → env.alloc .tokens = true →
    env.alloc .replica = true → 0 ≤ sock ∧ sock ∉ fds server

/-- The same for each queued input, in the state that EXEC runs it in. -/
def FreshQueue (oracle : Oracle) (sock : Int) : Nat → List Bytes → Server → Prop
  | _, [], _ => True
  | index, cmd :: rest, server =>
      FreshInput (oracle.inner index []) sock (cstr cmd) server ∧
        FreshQueue oracle sock (index + 1) rest
          (executeCommandAt 0 (oracle.inner index) sock cmd server).server

/-- The same for whatever the input makes `execute_command` do. -/
structure Fresh (oracle : Oracle) (sock : Int) (buffer : Bytes) (server : Server) : Prop where
  direct : inTransaction sock server = false → FreshInput (oracle []) sock (cstr buffer) server
  queued : lower (tokens (cstr buffer)) = [ascii "exec"] → ∀ client,
    findClient sock server = some client → client.inTransaction = true →
      client.transactionErrors = false → (oracle []).alloc .inputCopy = true →
        (oracle []).alloc .tokens = true → (oracle []).alloc .txCommands = true →
          FreshQueue oracle sock 0 client.queuedCommands (modifyClient sock txCleanup server)

end Condition

section Handlers

/-- Every entry of the second list, in the order of the first. -/
theorem feed_replicas_fds (cmd : Bytes) (delivery : Nat → Delivery) (feed : Feed)
    (replicas : List Replica) :
    (feedReplicas cmd delivery feed replicas).2.map (·.fd) = replicas.map (·.fd) := by
  induction replicas generalizing delivery feed with
  | nil => rfl
  | cons replica rest ih =>
      have kept : (feedReplica cmd (delivery 0) feed replica).2.fd = replica.fd := by
        simp only [feedReplica]
        split
        · rfl
        · split
          · rfl
          · split <;> rfl
      simp [feedReplicas, kept, ih]

theorem removals_sublist (marked : List Int) (replicas : List Replica) :
    (marked.foldl removeReplica replicas).Sublist replicas := by
  induction marked generalizing replicas with
  | nil => exact List.Sublist.refl _
  | cons fd rest ih => exact (ih _).trans List.eraseP_sublist

/-- A feed only takes entries away. -/
theorem feed_fds (malloc : Bool) (delivery : Nat → Delivery) (cmd : Bytes) (repl : ReplicationInfo) :
    ((replicationFeedSlaves malloc delivery cmd repl).1.replicas.map (·.fd)).Sublist
      (repl.replicas.map (·.fd)) := by
  simp only [replicationFeedSlaves]
  split
  · rw [← feed_replicas_fds (framed malloc cmd) delivery ⟨repl.replOffset, []⟩ repl.replicas]
    exact (removals_sublist _ _).map _
  · exact List.Sublist.refl _

theorem propagate_fds (env : Env) (sock : Int) (input name : Bytes) (outcome : Outcome) :
    (fds (propagate env sock input name outcome).server).Sublist (fds outcome.server) := by
  rw [propagate_eq]
  split
  · exact feed_fds _ _ _ _
  · exact List.Sublist.refl _

theorem set_primary_replicas (connect : Connect) (port : Int) (host : Bytes) (primaryPort : Int)
    (repl : ReplicationInfo) :
    (replicationSetPrimary connect port host primaryPort repl).1.replicas = repl.replicas := by
  have kept : (closePrimary repl).1.replicas = repl.replicas := by
    simp only [closePrimary]
    split <;> rfl
  simp only [replicationSetPrimary]
  split <;> exact kept

theorem unset_primary_replicas (repl : ReplicationInfo) :
    (replicationUnsetPrimary repl).1.replicas = repl.replicas := by
  simp only [replicationUnsetPrimary, closePrimary]
  split <;> rfl

/-- REPLCONF is the only handler that adds an entry. -/
theorem handler_fds (execute : Nat → Bytes → Server → Outcome) (env : Env) (sock : Int)
    (argv : List Bytes) (server : Server) (command : Command) (direct : command ≠ .exec) :
    fds (runHandler execute env sock argv server command).server = fds server ∨
      (command = .replconf ∧ argv.length ≥ 3 ∧
        strcaseeq (arg argv 1) (ascii "listening-port") = true ∧ env.alloc .replica = true ∧
          fds (runHandler execute env sock argv server command).server = sock :: fds server) := by
  cases command with
  | exec => exact absurd rfl direct
  | replconf =>
      simp only [runHandler, replconfCommand, addReplica]
      split
      case isTrue listening =>
        split
        case isTrue allocated => exact Or.inr ⟨trivial, listening.1, listening.2, allocated, rfl⟩
        case isFalse => exact Or.inl rfl
      case isFalse => exact Or.inl rfl
  | replicaof =>
      left
      simp only [runHandler, replicaofCommand, fds]
      split
      · simp only [unset_primary_replicas]
      · split
        · rfl
        · split <;> simp only [set_primary_replicas]
  | ping | set | get | del | exist | expire | ttl | save | bgsave | role | incr | multi | discard
  | subscribe | unsubscribe | publish =>
      left
      simp only [fds, (handler_untouched execute env sock argv server _ direct).repl (by decide) (by decide)]

theorem replconf_name : ∀ row ∈ commands, row.command = .replconf → row.name = ascii "replconf" := by
  decide

theorem replconf_direct : isTxCommand (ascii "replconf") = false := by decide

theorem queue_input_fds (env : Env) (sock : Int) (input : Bytes) (server : Server) :
    fds (queueInput env sock input server).server = fds server := by
  simp only [queueInput]
  split
  · rfl
  · split <;> rfl

end Handlers

section Execution

variable (Member : Int → Prop)

/-- Distinct entries, each of them a member. -/
def Attached (server : Server) : Prop := (fds server).Nodup ∧ ∀ fd ∈ fds server, Member fd

theorem Attached.shrink {Member : Int → Prop} {before after : Server}
    (attached : Attached Member before) (sub : (fds after).Sublist (fds before)) :
    Attached Member after :=
  ⟨attached.1.sublist sub, fun fd member => attached.2 fd (sub.subset member)⟩

/-- What one call does to the list unless it is an EXEC. -/
theorem execute_with_attached (execute : Nat → Bytes → Server → Outcome) (env : Env) (sock : Int)
    (buffer : Bytes) (server : Server) (attached : Attached Member server)
    (asks : joins (cstr buffer) = true → 0 ≤ sock → Member sock)
    (fresh : inTransaction sock server = false → FreshInput env sock (cstr buffer) server)
    (exec : ∀ row ∈ commands, row.name = commandName (cstr buffer) → row.command = .exec →
      wrongArity row (tokens (cstr buffer)).length = false → env.alloc .inputCopy = true →
        env.alloc .tokens = true → Attached Member
          (runHandler execute env sock (lower (tokens (cstr buffer))) server .exec).server) :
    Attached Member (executeWith execute env sock buffer server).server := by
  have ran := execute_with_cases execute env sock buffer server
  generalize executeWith execute env sock buffer server = outcome at ran
  cases ran with
  | refused => exact attached
  | queued => exact attached.shrink (queue_input_fds env sock _ server ▸ List.Sublist.refl _)
  | ran row member named arity allowed copied tokenized =>
      refine Attached.shrink ?_ (propagate_fds env sock _ _ _)
      by_cases kind : row.command = .exec
      · rw [kind]
        exact exec row member named kind arity copied tokenized
      · rcases handler_fds execute env sock (lower (tokens (cstr buffer))) server row.command kind with
          same | ⟨replconf, three, listening, allocated, grown⟩
        · exact attached.shrink (same ▸ List.Sublist.refl _)
        · have name := replconf_name row member replconf
          rw [lower_length] at three
          have joining : joins (cstr buffer) = true := by
            simp [joins, ← named, name, three, listening]
          have outside : inTransaction sock server = false := by
            cases inside : inTransaction sock server with
            | false => rfl
            | true =>
                have tx := allowed inside
                rw [← named, name, replconf_direct] at tx
                contradiction
          obtain ⟨connected, absent⟩ := fresh outside joining copied tokenized allocated
          constructor
          · rw [grown]
            exact List.nodup_cons.mpr ⟨absent, attached.1⟩
          · rw [grown]
            intro fd inside
            rcases List.mem_cons.mp inside with rfl | old
            · exact asks joining connected
            · exact attached.2 fd old

/-- The loop of EXEC. -/
theorem run_queued_attached (oracle : Oracle) (sock : Int) (cmds : List Bytes)
    (direct : ∀ cmd ∈ cmds, isTxCommand (commandName (cstr cmd)) = false)
    (asks : ∀ cmd ∈ cmds, joins (cstr cmd) = true → 0 ≤ sock → Member sock) (index : Nat) (server : Server)
    (fresh : FreshQueue oracle sock index cmds server) (attached : Attached Member server) :
    Attached Member (runQueued
      (fun index cmd server => executeCommandAt 0 (oracle.inner index) sock cmd server) sock index cmds
      server).1 := by
  induction cmds generalizing index server with
  | nil => exact attached
  | cons cmd rest ih =>
      rcases fresh with ⟨first, later⟩
      apply ih (fun other member => direct other (List.mem_cons_of_mem cmd member))
        (fun other member => asks other (List.mem_cons_of_mem cmd member)) (index + 1) _ later
      apply execute_with_attached Member _ _ sock cmd server attached (asks cmd List.mem_cons_self)
      · exact fun _ => first
      · intro row member named kind
        have tx := direct cmd List.mem_cons_self
        rw [← named, exec_name row member kind, exec_tx] at tx
        contradiction

theorem execute_attached (oracle : Oracle) (sock : Int) (buffer : Bytes) (server : Server)
    (ready : QueuesReady server.clientList) (attached : Attached Member server)
    (asks : joins (cstr buffer) = true → 0 ≤ sock → Member sock)
    (queuedAsks : ∀ client, findClient sock server = some client →
      ∀ cmd ∈ client.queuedCommands, joins cmd = true → Member sock)
    (fresh : Fresh oracle sock buffer server) :
    Attached Member (executeCommand oracle sock buffer server).server := by
  apply execute_with_attached Member _ _ sock buffer server attached asks fresh.direct
  intro row member named kind arity copied tokenized
  have name := exec_name row member kind
  have alone := tx_alone row member (by rw [name, exec_tx]) (tokens (cstr buffer)) arity named
  rw [name] at alone
  simp only [runHandler, execCommand]
  split
  case h_1 => exact attached
  case h_2 client found =>
    split
    case isFalse => exact attached
    case isTrue inside =>
      obtain ⟨listedClient, socket⟩ := get_mem sock server.clientList client found
      simp only [txExecuteCommands, socket]
      split
      case isTrue => exact attached
      case isFalse clean =>
        split
        case isFalse => exact attached
        case isTrue allocated =>
          have queue := fresh.queued alone client found inside (by simpa using clean) copied tokenized
            allocated
          -- A queued input is a C string already, so the call reads it as it was sent.
          have free (cmd : Bytes) (queued : cmd ∈ client.queuedCommands) : cstr cmd = cmd :=
            cstr_of_nul_free cmd (ready.queueable client listedClient cmd queued).plain.free
          exact run_queued_attached Member oracle sock client.queuedCommands
            (ready.direct client listedClient)
            (fun cmd queued asksToo _ => queuedAsks client found cmd queued (by rwa [free cmd queued] at asksToo))
            0 (modifyClient sock txCleanup server) queue attached

end Execution

section Steps

/-- The replication thread is about to run what it receives. -/
def Following (server : Server) : Prop :=
  server.repl.role = .replica ∧ (server.repl.state = .sync ∨ server.repl.state = .connected)

/-- A closing connection is not in the list, an executed REPLCONF adds a connection
    that is not in the list, and none comes from a primary. -/
def Permitted (traced : Traced) : ServerStep → Prop
  | .receive oracle socket chunk =>
      Possible traced.server (.receive oracle socket chunk) ∧
        (Closes traced.server socket chunk → socket ∉ fds traced.server) ∧
          (¬ Closes traced.server socket chunk → Fresh oracle socket chunk traced.server)
  | .replication oracle (.data chunk) connect =>
      Possible traced.server (.replication oracle (.data chunk) connect) ∧
        (Following traced.server → ∀ index line,
          (crlfLines 0 [] (traced.server.replicaBuffer ++ chunk)).1[index]? = some line →
            FreshInput (oracle index []) (-1) (cstr line.1) traced.server)
  | step => Possible traced.server step

/-- The invariant of such runs: who is listed has asked, and who queued a REPLCONF too. -/
structure Kept (traced : Traced) : Prop where
  wf : Wellformed traced.server
  attached : Attached
    (fun fd => fd ∈ (openClients traced.server).map (·.socket) ∧ asked fd traced.trace = true)
    traced.server
  queued : ∀ client ∈ listed traced.server.clientList, ∀ cmd ∈ client.queuedCommands,
    joins cmd = true → asked client.socket traced.trace = true

theorem Attached.weaken {Member Other : Int → Prop} {server : Server}
    (attached : Attached Member server) (implies : ∀ fd ∈ fds server, Member fd → Other fd) :
    Attached Other server :=
  ⟨attached.1, fun fd member => implies fd member (attached.2 fd member)⟩

/-- Where the queued inputs of a listed client come from. -/
theorem transition_queued (ok : Bool) (sock : Int) (input : Bytes) (before after : ClientList)
    (events : List Event) (transition : Transition ok sock input before after events)
    (client : Client) (member : client ∈ listed after) (cmd : Bytes)
    (queued : cmd ∈ client.queuedCommands) :
    (∃ old ∈ listed before, old.socket = client.socket ∧ cmd ∈ old.queuedCommands) ∨
      (client.socket = sock ∧ cmd = input) := by
  -- Every transition but the quiet one is an update of the one client.
  have updated (change : Client → Client) (keeps : KeepsSocket change)
      (stays : ∀ old, cmd ∈ (change old).queuedCommands → cmd ∈ old.queuedCommands ∨ cmd = input)
      (inside : client ∈ listed (updateClient sock change before)) :
      (∃ old ∈ listed before, old.socket = client.socket ∧ cmd ∈ old.queuedCommands) ∨
        (client.socket = sock ∧ cmd = input) := by
    rcases update_mem _ _ _ _ inside with kept | ⟨old, found, rfl⟩
    · exact Or.inl ⟨client, kept, rfl, queued⟩
    · obtain ⟨there, socket⟩ := get_mem sock before old found
      rcases stays old queued with earlier | same
      · exact Or.inl ⟨old, there, (keeps old).symm, earlier⟩
      · exact Or.inr ⟨(keeps old).trans socket, same⟩
  cases transition with
  | quiet same => exact Or.inl ⟨client, same ▸ member, rfl, queued⟩
  | queued holder found inside capacity nonempty direct whole =>
      apply updated _ (enqueue_keeps input capacity) _ (whole ▸ member)
      intro old last
      rcases List.mem_append.mp last with early | late
      · exact Or.inl early
      · exact Or.inr (List.mem_singleton.mp late)
  | failed holder found inside capacity direct whole =>
      exact updated _ (failed_keeps capacity) (fun old same => Or.inl same) (whole ▸ member)
  | started holder found outside alone whole =>
      exact updated _ begin_keeps (fun old same => Or.inl same) (whole ▸ member)
  | executed holder found inside alone whole =>
      exact updated _ cleanup_keeps (fun old none => by simp [txCleanup] at none) (whole ▸ member)
  | discarded holder found inside alone whole =>
      exact updated _ cleanup_keeps (fun old none => by simp [txCleanup] at none) (whole ▸ member)

theorem asked_other (fd socket : Int) (trace : List Record) (record : Record) (different : socket ≠ fd)
    (about : (∃ events, record = .closed socket events) ∨ record = .connected socket) :
    asked fd (trace ++ [record]) = asked fd trace := by
  rw [asked_append]
  rcases about with ⟨events, rfl⟩ | rfl
  · simp [observeAsk, different]
  · simp [observeAsk, different]

theorem asked_input (fd socket : Int) (trace : List Record) (input : Bytes) (events : List Event) :
    asked fd (trace ++ [.input socket input events]) =
      (asked fd trace || (socket = fd && joins input)) := by
  rw [asked_append]
  rfl

theorem connect_kept (ptr : Nat) (socket : Int) (server : Server) (trace : List Record)
    (kept : Kept ⟨server, trace⟩) (possible : Possible server (.connect ptr socket)) :
    Kept ⟨connectClient (newClient ptr socket server.config) server,
      trace ++ [.connected socket]⟩ := by
  have fresh : socket ∉ (openClients server).map (·.socket) := possible.2.1
  have still (fd : Int) (there : fd ∈ (openClients server).map (·.socket)) :
      asked fd (trace ++ [.connected socket]) = asked fd trace :=
    asked_other fd socket trace _ (fun same => fresh (same ▸ there)) (Or.inr rfl)
  constructor
  · exact connect_wellformed ptr socket server kept.wf possible
  · apply kept.attached.weaken
    rintro fd - ⟨there, asks⟩
    refine ⟨?_, (still fd there).trans asks⟩
    rw [((connect_open ptr socket server).map (·.socket)).mem_iff]
    exact List.mem_cons_of_mem _ there
  · intro client member cmd queued asks
    rcases connect_listed ptr socket server client member with rfl | old
    · simp [newClient, txInit] at queued
    · rw [still client.socket (List.mem_map_of_mem ((open_mem server client).mpr (Or.inl old)))]
      exact kept.queued client old cmd queued asks

theorem disconnect_kept (client : Client) (server : Server) (trace : List Record)
    (events : List Event) (kept : Kept ⟨server, trace⟩) (member : client ∈ openClients server)
    (absent : client.socket ∉ fds server) :
    Kept ⟨(disconnectClient client server).1, trace ++ [.closed client.socket events]⟩ := by
  have wf : Wellformed server := kept.wf
  obtain ⟨rest, opens⟩ := disconnect_open client server wf
  have still (fd : Int) (different : fd ≠ client.socket) :
      asked fd (trace ++ [.closed client.socket events]) = asked fd trace :=
    asked_other fd client.socket trace _ (Ne.symm different) (Or.inl ⟨events, rfl⟩)
  constructor
  · exact disconnect_wellformed client server wf
  · apply kept.attached.weaken
    rintro fd listedFd ⟨there, asks⟩
    have different : fd ≠ client.socket := fun same => absent (same ▸ listedFd)
    refine ⟨?_, (still fd different).trans asks⟩
    obtain ⟨other, old, rfl⟩ := List.mem_map.mp there
    have apart := (open_socket_ptr server wf client other member old).not.mpr different
    dsimp only
    rw [opens]
    exact List.mem_map_of_mem (List.mem_filter.mpr ⟨old, by simpa using apart⟩)
  -- What a remaining client has queued, it had queued before.
  · intro other remains cmd queued asks
    dsimp only at remains
    rw [rest] at remains
    obtain ⟨old, apart⟩ := List.mem_filter.mp remains
    have inside := (open_mem server other).mpr (Or.inl old)
    have different : other.socket ≠ client.socket :=
      (open_socket_ptr server wf client other member inside).not.mp (by simpa using apart)
    rw [still other.socket different]
    exact kept.queued other old cmd queued asks

/-- The event loop closes a descriptor for which it has no client. -/
theorem drop_kept (socket : Int) (server : Server) (trace : List Record) (events : List Event)
    (kept : Kept ⟨server, trace⟩) (missing : findClient socket server = none)
    (absent : socket ∉ fds server) :
    Kept ⟨{ server with unlisted := server.unlisted.filter (·.socket ≠ socket) },
      trace ++ [.closed socket events]⟩ := by
  have wf : Wellformed server := kept.wf
  have still (fd : Int) (different : fd ≠ socket) :
      asked fd (trace ++ [.closed socket events]) = asked fd trace :=
    asked_other fd socket trace _ (Ne.symm different) (Or.inl ⟨events, rfl⟩)
  constructor
  · exact shrink_wellformed server _ wf rfl rfl (List.Sublist.refl _) List.filter_sublist
  · apply kept.attached.weaken
    rintro fd listedFd ⟨there, asks⟩
    have different : fd ≠ socket := fun same => absent (same ▸ listedFd)
    refine ⟨?_, (still fd different).trans asks⟩
    obtain ⟨other, old, rfl⟩ := List.mem_map.mp there
    apply List.mem_map_of_mem
    rw [open_mem] at old ⊢
    rcases old with slot | outside
    · exact Or.inl slot
    · exact Or.inr (List.mem_filter.mpr ⟨outside, by simpa using different⟩)
  · intro client member cmd queued asks
    -- A listed client of the socket would have been found.
    have different : client.socket ≠ socket := by
      rintro rfl
      rw [findClient, get_unique _ (listed_distinct server wf) client member] at missing
      contradiction
    rw [still client.socket different]
    exact kept.queued client member cmd queued asks

theorem input_kept (oracle : Oracle) (socket : Int) (buffer : Bytes) (server : Server)
    (trace : List Record) (kept : Kept ⟨server, trace⟩) (short : buffer.length < 2 ^ 31)
    (there : socket ∈ (openClients server).map (·.socket)) (fresh : Fresh oracle socket buffer server) :
    Kept ⟨(executeCommand oracle socket buffer server).server, trace ++
      [.input socket (cstr buffer) (executeCommand oracle socket buffer server).events]⟩ := by
  have wf : Wellformed server := kept.wf
  have opens := execute_map (fun client => client.socket) (fun _ _ _ _ _ _ _ _ _ _ _ _ => rfl) oracle
    socket buffer server wf short
  have attached : Attached (fun fd => fd ∈ (openClients server).map (·.socket) ∧
      asked fd (trace ++ [.input socket (cstr buffer)
        (executeCommand oracle socket buffer server).events]) = true) server := by
    apply kept.attached.weaken
    rintro fd - ⟨still, asks⟩
    exact ⟨still, by simp only [asked_input, asks, Bool.true_or]⟩
  constructor
  · exact execute_wellformed oracle socket buffer server wf short
  · dsimp only
    rw [opens]
    apply execute_attached _ oracle socket buffer server wf.ready attached
    · exact fun asks _ => ⟨there, by simp [asked_input, asks]⟩
    -- EXEC runs what the connection queued, and it asked when it did.
    · intro client found cmd queued asks
      obtain ⟨member, same⟩ := get_mem _ _ _ found
      have earlier : asked client.socket trace = true := kept.queued client member cmd queued asks
      rw [same] at earlier
      exact ⟨there, by simp only [asked_input, earlier, Bool.true_or]⟩
    · exact fresh
  · intro client member cmd queued asks
    rw [asked_input]
    rcases transition_queued _ _ _ _ _ _ (execute_transition oracle socket buffer server wf.ready)
      client member cmd queued with ⟨old, before, same, earlier⟩ | ⟨same, rfl⟩
    · have sent : asked old.socket trace = true := kept.queued old before cmd earlier asks
      rw [← same, sent, Bool.true_or]
    · simp [same, asks]

theorem lines_attached (Member : Int → Prop) (oracle : Nat → Oracle) (lines : List (Bytes × Nat))
    (index : Nat) (server : Server) (ready : QueuesReady server.clientList)
    (attached : Attached Member server)
    (fresh : ∀ offset line, lines[offset]? = some line →
      FreshInput (oracle (index + offset) []) (-1) (cstr line.1) server) :
    Attached Member (executeLines oracle index lines server).1 := by
  induction lines generalizing index server with
  | nil => exact attached
  | cons line rest ih =>
      rcases line with ⟨text, stop⟩
      -- No state makes a REPLCONF of the thread fresh.
      have none (offset : Nat) (line : Bytes × Nat) (there : rest[offset]? = some line)
          (after : Server) : FreshInput (oracle (index + 1 + offset) []) (-1) (cstr line.1) after := by
        intro asks copied tokenized allocated
        have later := fresh (offset + 1) line (by simpa using there)
        rw [show index + (offset + 1) = index + 1 + offset by omega] at later
        exact absurd (later asks copied tokenized allocated).1 (by decide)
      simp only [executeLines]
      split
      · exact ih (index + 1) (advanceOffset stop server) ready attached
          fun offset line there => none offset line there _
      · have first : Attached Member (executeCommand (oracle index) (-1) text server).server := by
          apply execute_attached Member (oracle index) (-1) text server ready attached
          · exact fun _ wrong => absurd wrong (by decide)
          · intro client found
            rw [findClient, ready.thread_absent] at found
            cases found
          · refine ⟨fun _ => fresh 0 (text, stop) rfl, ?_⟩
            intro _ client found
            rw [findClient, ready.thread_absent] at found
            cases found
        have same := (thread_line (oracle index) text server ready).1
        exact ih (index + 1)
          (advanceOffset stop (executeCommand (oracle index) (-1) text server).server)
          (by simpa [advanceOffset, same] using ready) first
          fun offset line there => none offset line there _

theorem reconnect_fds (connect : Connect) (server : Server) :
    fds (reconnect connect server).1 = fds server := by
  simp only [reconnect, fds, set_primary_replicas]

theorem replication_attached (Member : Int → Prop) (oracle : Nat → Oracle) (received : Received)
    (connect : Connect) (server : Server) (ready : QueuesReady server.clientList)
    (attached : Attached Member server)
    (fresh : ∀ chunk, received = .data chunk → Following server → ∀ index line,
      (crlfLines 0 [] (server.replicaBuffer ++ chunk)).1[index]? = some line →
        FreshInput (oracle index []) (-1) (cstr line.1) server) :
    Attached Member (replicationThread oracle received connect server).1 := by
  have again (repl : ReplicationInfo) (same : repl.replicas = server.repl.replicas) :
      Attached Member (reconnect connect { server with repl := repl }).1 := by
    apply attached.shrink
    rw [reconnect_fds, fds, same]
    exact List.Sublist.refl _
  simp only [replicationThread]
  split
  case h_1 => exact attached
  case h_2 => exact attached
  case h_3 =>
    split
    · exact again server.repl rfl
    · exact attached
  case h_4 role notNone notConnecting =>
    have following : Following server := by
      refine ⟨role, ?_⟩
      cases state : server.repl.state with
      | none => exact absurd state notNone
      | connecting => exact absurd state notConnecting
      | sync => exact Or.inl rfl
      | connected => exact Or.inr rfl
    split
    case h_1 chunk =>
      have lines := lines_attached Member oracle _ 0 server ready attached
        fun offset line there => by simpa using fresh chunk rfl following offset line there
      apply lines.shrink
      simp only [receiveFromPrimary, fds, markConnected]
      split <;> exact List.Sublist.refl _
    case h_2 => exact attached
    case h_3 => exact again _ rfl

theorem serve_kept (oracle : Oracle) (socket : Int) (chunk : Bytes) (server : Server)
    (trace : List Record) (kept : Kept ⟨server, trace⟩)
    (permitted : Permitted ⟨server, trace⟩ (.receive oracle socket chunk)) :
    Kept (tracedStep ⟨server, trace⟩ (.receive oracle socket chunk)) := by
  rcases permitted with ⟨possible, leaves, fresh⟩
  have wf : Wellformed server := kept.wf
  simp only [tracedStep, records, next, stepServer]
  have served := serve_cases oracle socket chunk server
  generalize serve oracle socket chunk server = reading at served
  cases served with
  | closed client member same ended =>
      subst same
      exact disconnect_kept client server trace _ kept member (leaves (Or.inl ended))
  | read client member same stays =>
      subst same
      have room : chunk.length < server.config.bufferSize := possible.2
      have bound := wf.bufferSize
      have buffer := wf.whole_input client member chunk
      have input := input_kept oracle client.socket chunk server trace kept (by omega) possible.1
        (fresh stays)
      have state := read_executes oracle client chunk server wf member room
      rw [buffer] at state
      rw [state]
      simpa only [readInput, buffer] using input
  | dropped loop missing =>
      exact drop_kept socket server trace _ kept missing (leaves (Or.inr ⟨loop, missing⟩))
  | absent missing => exact absurd possible.1 missing

/-- A step in which no connection sends or closes. -/
theorem silent_kept (server after : Server) (trace : List Record) (kept : Kept ⟨server, trace⟩)
    (wf : Wellformed after) (same : SameClients server after)
    (attached : Attached (fun fd => fd ∈ (openClients server).map (·.socket) ∧
      asked fd trace = true) after) : Kept ⟨after, trace ++ []⟩ := by
  have opens : openClients after = openClients server := by
    simp only [openClients, same.clientList, same.unlisted]
  rw [List.append_nil]
  constructor
  · exact wf
  · dsimp only
    rw [opens]
    exact attached
  · dsimp only
    rw [same.clientList]
    exact kept.queued

theorem step_kept (traced : Traced) (step : ServerStep) (kept : Kept traced)
    (permitted : Permitted traced step) : Kept (tracedStep traced step) := by
  rcases traced with ⟨server, trace⟩
  have wf : Wellformed server := kept.wf
  cases step with
  | connect ptr socket => exact connect_kept ptr socket server trace kept permitted
  | receive oracle socket chunk => exact serve_kept oracle socket chunk server trace kept permitted
  | replication oracle received connect =>
      have possible : Possible server (.replication oracle received connect) := by
        cases received with
        | data chunk => exact permitted.1
        | wouldBlock => trivial
        | lost => trivial
      apply silent_kept server _ trace kept (next_wellformed server _ wf possible)
        (replication_same_clients oracle received connect server wf possible)
      apply replication_attached _ oracle received connect server wf.ready kept.attached
      rintro chunk rfl
      exact permitted.2
  | sweep now =>
      exact silent_kept server _ trace kept (next_wellformed server (.sweep now) wf trivial)
        ⟨rfl, rfl, rfl⟩ kept.attached
  | autoSave now saveNow io =>
      apply silent_kept server _ trace kept (next_wellformed server (.autoSave now saveNow io) wf trivial)
      · simp only [next, stepServer, autoSave]
        split
        · split <;> exact ⟨rfl, rfl, rfl⟩
        · exact ⟨rfl, rfl, rfl⟩
      · have same : fds (next server (.autoSave now saveNow io)) = fds server := by
          simp only [next, stepServer, autoSave]
          split
          · split <;> rfl
          · rfl
        exact kept.attached.shrink (same ▸ List.Sublist.refl _)

end Steps

section Runs

/-- With distinct entries, a feed writes to each of them once and to nobody else. -/
theorem feed_writes_once (cmd : Bytes) (delivery : Nat → Delivery) (replicas : List Replica)
    (distinct : (replicas.map (·.fd)).Nodup) (fd : Int) :
    writtenTo fd (feedWrites cmd delivery replicas) =
      if fd ∈ replicas.map (·.fd) then [cmd] else [] := by
  induction replicas generalizing delivery with
  | nil => rfl
  | cons replica rest ih =>
      obtain ⟨fresh, apart⟩ := List.nodup_cons.mp distinct
      have later := ih (fun index => delivery (index + 1)) apart
      by_cases hit : replica.fd = fd
      · subst hit
        rw [if_neg fresh] at later
        simp only [writtenTo] at later
        simp [writtenTo, feedWrites, later]
      · simp only [writtenTo] at later
        simp [writtenTo, feedWrites, later, hit, Ne.symm hit]

theorem kept_integrity (traced : Traced) (kept : Kept traced) : Integrity traced := by
  refine ⟨kept.attached.1, kept.attached.2, fun isPrimary malloc delivery cmd fd => ?_⟩
  simp only [replicationFeedSlaves, isPrimary, ↓reduceIte]
  exact feed_writes_once _ delivery _ kept.attached.1 fd

theorem start_kept (server : Server) (starts : Starts server) : Kept ⟨server, []⟩ := by
  have wf := start_wellformed server starts
  rcases starts with ⟨-, now, files, config, same, -⟩
  have none : fds server = [] := by
    rw [same]
    rfl
  have clients : listed server.clientList = [] := by
    rw [same]
    exact listed_empty config.maxClients
  constructor
  · exact wf
  · simp [Attached, none]
  · simp [clients]

/-- In every run whose steps find their own socket outside of the list, the list
    is one of distinct open connections that asked. -/
theorem replicas_are_who_asked (server : Server) (starts : Starts server) (steps : List ServerStep)
    (admitted : Admitted Permitted tracedStep ⟨server, []⟩ steps) :
    Integrity (run tracedStep ⟨server, []⟩ steps) :=
  kept_integrity _ (run_invariant Permitted tracedStep step_kept ⟨server, []⟩
    (start_kept server starts) steps admitted)

/-- A connection that asks. -/
def askSteps : List ServerStep :=
  [.connect 1 7, .receive (calm 0) 7 (ascii "REPLCONF listening-port 6380\r\n")]

theorem asking_is_listed : Integrity (run tracedStep ⟨emptyServer, []⟩ askSteps) := by
  apply replicas_are_who_asked emptyServer empty_starts
  refine ⟨empty_connects, ⟨⟨one_client_open, by decide⟩, ?_, ?_⟩, trivial⟩
  · intro _
    decide +kernel
  · refine fun _ => ⟨fun _ _ _ _ _ => ⟨by decide, by decide +kernel⟩, fun alone => ?_⟩
    exact absurd alone (by decide)

/-- It leaves, and its descriptor goes to the next connection. -/
def reuseSteps : List ServerStep := askSteps ++ [.receive (calm 0) 7 [], .connect 2 7]

/-- It asks again. -/
def repeatSteps : List ServerStep :=
  askSteps ++ [.receive (calm 0) 7 (ascii "REPLCONF listening-port 6380\r\n")]

/-- A connection that never asked is listed, and one that asked twice is listed twice. -/
theorem list_loses_integrity :
    Admitted (fun traced => Possible traced.server) tracedStep ⟨emptyServer, []⟩ reuseSteps ∧
      ¬ Integrity (run tracedStep ⟨emptyServer, []⟩ reuseSteps) ∧
        Admitted (fun traced => Possible traced.server) tracedStep ⟨emptyServer, []⟩ repeatSteps ∧
          ¬ Integrity (run tracedStep ⟨emptyServer, []⟩ repeatSteps) := by
  refine ⟨⟨empty_connects, ⟨one_client_open, by decide⟩, ⟨?_, by decide⟩, ⟨by decide, ?_, ?_⟩, trivial⟩,
    ?_, ⟨empty_connects, ⟨one_client_open, by decide⟩, ⟨?_, by decide⟩, trivial⟩, ?_⟩
  · decide +kernel
  · decide +kernel
  · decide +kernel
  · intro integrity
    have stale : 7 ∈ fds (run tracedStep ⟨emptyServer, []⟩ reuseSteps).server := by decide +kernel
    have silent : asked 7 (run tracedStep ⟨emptyServer, []⟩ reuseSteps).trace = false := by
      decide +kernel
    have asks := (integrity.attached 7 stale).2
    rw [silent] at asks
    exact Bool.false_ne_true asks
  · decide +kernel
  · intro integrity
    have twice : ¬ (fds (run tracedStep ⟨emptyServer, []⟩ repeatSteps).server).Nodup := by
      decide +kernel
    exact twice integrity.distinct

end Runs

end CrimsonCache.ReplicaList
