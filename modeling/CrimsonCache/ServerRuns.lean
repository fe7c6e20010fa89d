import CrimsonCache.Connections
import CrimsonCache.Library.Runs
import CrimsonCache.ReplicationThread
import CrimsonCache.TransactionSteps

/-!
Runs of the whole server: connections come, send and go, and the background
threads take their passes, in any order. Every state a run reaches is
well-formed, from the entries of the table to the queues of the clients.
-/

namespace CrimsonCache.ServerRuns

open CString Dictionary Persistence Replies Transaction Pubsub Replication Tokenizer ServerState
  DataCommands StoredData Commands TransactionSteps Connections ReplicationThread Runs

inductive ServerStep where
  | connect (ptr : Nat) (socket : Int)
  | receive (oracle : Oracle) (socket : Int) (chunk : Bytes)
  | replication (oracle : Nat → Oracle) (received : Received) (connect : Connect)
  | sweep (now : Nat)
  | autoSave (now saveNow : Nat) (io : SaveIo)

def stepServer (server : Server) : ServerStep → Server × List Event
  | .connect ptr socket => (connectClient (newClient ptr socket server.config) server, [])
  | .receive oracle socket chunk =>
      ((serve oracle socket chunk server).server, (serve oracle socket chunk server).events)
  | .replication oracle received connect => replicationThread oracle received connect server
  | .sweep now => (cleanupExpiredKeys now server, [])
  | .autoSave now saveNow io => (autoSave now saveNow io server, [])

/-- What the kernel guarantees: descriptors and addresses in use are not handed
    out again, only open descriptors are read, and a read fills no more than
    the buffer it was given. -/
def Possible (server : Server) : ServerStep → Prop
  | .connect ptr socket =>
      0 ≤ socket ∧ socket ∉ (openClients server).map (·.socket) ∧
        ptr ∉ (openClients server).map (·.ptr)
  | .receive _ socket chunk =>
      socket ∈ (openClients server).map (·.socket) ∧ chunk.length < server.config.bufferSize
  | .replication _ (.data chunk) _ =>
      server.replicaBuffer.length + chunk.length < server.config.bufferSize
  | .replication _ _ _ => True
  | .sweep _ => True
  | .autoSave _ _ _ => True

def next (server : Server) (step : ServerStep) : Server := (stepServer server step).1

structure Wellformed (server : Server) : Prop where
  sound : Sound server.db
  idle : ∀ client ∈ listed server.clientList, client.inTransaction = false → Idle client
  queueable : ∀ client ∈ listed server.clientList, ∀ cmd ∈ client.queuedCommands, Queueable cmd
  outside : ∀ client ∈ server.unlisted, Idle client
  buffers : ∀ client ∈ openClients server, client.buffer = []
  sockets : ((openClients server).map (·.socket)).Nodup
  ptrs : ((openClients server).map (·.ptr)).Nodup
  positive : ∀ client ∈ openClients server, 0 ≤ client.socket
  bufferSize : server.config.bufferSize < 2 ^ 31

theorem Wellformed.ready {server : Server} (wf : Wellformed server) :
    QueuesReady server.clientList :=
  ⟨fun client member => wf.positive client (List.mem_append_left _ member), wf.queueable⟩

section Execution

/-- The parts of the state that `execute_command` never changes. -/
def Fixed (server : Server) : List Client × ServerConfig := (server.unlisted, server.config)

def SoundAt (fixed : List Client × ServerConfig) (server : Server) : Prop :=
  Sound server.db ∧ Fixed server = fixed

theorem execute_with_sound (fixed : List Client × ServerConfig)
    (execute : Nat → Bytes → Server → Outcome) (env : Env) (sock : Int) (buffer : Bytes)
    (server : Server) (plain : Plain (cstr buffer))
    (nested : ∀ client, findClient sock server = some client → client.inTransaction = true →
      ∀ index, ∀ cmd ∈ client.queuedCommands, ∀ server, SoundAt fixed server →
        SoundAt fixed (execute index cmd server).server)
    (holds : SoundAt fixed server) :
    SoundAt fixed (executeWith execute env sock buffer server).server := by
  apply execute_with_rule (SoundAt fixed) execute env sock buffer server
  · exact fun _ _ _ kept => kept
  · intro row _ _ apart _
    have same := handler_same_clients execute env sock (lower (tokens (cstr buffer))) server
      row.command apart
    constructor
    · exact handler_sound execute env sock _ (lower_plain _ (tokens_plain _ plain)) server holds.1
        row.command apart.2.1
    · rw [← holds.2]
      simp [Fixed, same.unlisted, same.config]
  · exact fun _ kept => kept
  · exact nested
  · exact holds

theorem cstr_plain (buffer : Bytes) (short : buffer.length < 2 ^ 31) : Plain (cstr buffer) :=
  ⟨cstr_nul_free buffer, lt_of_le_of_lt (cstr_length buffer) short⟩

-- The queued inputs run with the handlers of `executeCommandAt 0`, below which nothing runs.
theorem execute_sound (oracle : Oracle) (sock : Int) (buffer : Bytes) (server : Server)
    (short : buffer.length < 2 ^ 31)
    (queueable : ∀ client ∈ listed server.clientList, ∀ cmd ∈ client.queuedCommands, Queueable cmd)
    (sound : Sound server.db) :
    SoundAt (Fixed server) (executeCommand oracle sock buffer server).server := by
  apply execute_with_sound _ _ _ _ _ _ (cstr_plain buffer short)
  · intro client found _ index cmd queued inner kept
    obtain ⟨member, -⟩ := get_mem sock server.clientList client found
    have plain := (queueable client member cmd queued).plain
    apply execute_with_sound _ _ _ _ _ _ (cstr_plain cmd plain.short)
    · exact fun _ _ _ _ _ _ _ kept => kept
    · exact kept
  · exact ⟨sound, rfl⟩

end Execution

section Clients

/-- What the invariant asks of a listed client. -/
structure Proper (client : Client) : Prop where
  idle : client.inTransaction = false → Idle client
  queueable : ∀ cmd ∈ client.queuedCommands, Queueable cmd

theorem Proper.of_idle {client : Client} (idle : Idle client) : Proper client :=
  ⟨fun _ => idle, by simp [idle.queuedCommands]⟩

theorem cleanup_proper (client : Client) : Proper (txCleanup client) :=
  Proper.of_idle (cleanup_idle client)

theorem begin_proper (client : Client) (proper : Proper client) :
    Proper (beginTransaction client) := ⟨fun wrong => by simp [beginTransaction] at wrong, proper.queueable⟩

/-- A transition keeps every listed client proper. -/
theorem transition_proper (ok : Bool) (sock : Int) (input : Bytes) (before after : ClientList)
    (events : List Event) (plain : Plain input)
    (transition : Transition ok sock input before after events)
    (proper : ∀ client ∈ listed before, Proper client) :
    ∀ client ∈ listed after, Proper client := by
  intro client member
  cases transition with
  | quiet same => exact proper client (same ▸ member)
  | queued holder found inside capacity nonempty direct updated =>
      rw [updated] at member
      rcases update_mem _ _ _ _ member with kept | ⟨old, same, rfl⟩
      · exact proper client kept
      · have wasIn : old.inTransaction = true := by
          rw [Option.some.inj (same.symm.trans found)]
          exact inside
        have proper := proper old (get_mem _ _ _ same).1
        constructor
        · intro wrong
          simp [enqueue, wasIn] at wrong
        · intro cmd queued
          rcases List.mem_append.mp queued with early | late
          · exact proper.queueable cmd early
          · rw [List.mem_singleton.mp late]
            exact ⟨plain, nonempty, direct⟩
  | failed holder found inside capacity direct updated =>
      rw [updated] at member
      rcases update_mem _ _ _ _ member with kept | ⟨old, same, rfl⟩
      · exact proper client kept
      · have wasIn : old.inTransaction = true := by
          rw [Option.some.inj (same.symm.trans found)]
          exact inside
        exact ⟨fun wrong => by simp [markFailed, grow, wasIn] at wrong,
          (proper old (get_mem _ _ _ same).1).queueable⟩
  | started holder found outside name updated =>
      rw [updated] at member
      rcases update_mem _ _ _ _ member with kept | ⟨old, same, rfl⟩
      · exact proper client kept
      · exact begin_proper old (proper old (get_mem _ _ _ same).1)
  | executed holder found inside name updated =>
      rw [updated] at member
      rcases update_mem _ _ _ _ member with kept | ⟨old, same, rfl⟩
      · exact proper client kept
      · exact cleanup_proper old
  | discarded holder found inside name updated =>
      rw [updated] at member
      rcases update_mem _ _ _ _ member with kept | ⟨old, same, rfl⟩
      · exact proper client kept
      · exact cleanup_proper old

/-- A field that no transition changes. -/
theorem transition_map {Field : Type} (field : Client → Field)
    (keeps : ∀ ptr socket capacity buffer tx tx' errors errors' queue queue' size size',
      field ⟨ptr, socket, capacity, buffer, tx, errors, queue, size⟩ =
        field ⟨ptr, socket, capacity, buffer, tx', errors', queue', size'⟩)
    (ok : Bool) (sock : Int) (input : Bytes) (before after : ClientList) (events : List Event)
    (transition : Transition ok sock input before after events) :
    (listed after).map field = (listed before).map field := by
  cases transition with
  | quiet same => rw [same]
  | queued _ _ _ _ _ _ updated => exact updated ▸ update_map field sock _ (fun _ => keeps ..) before
  | failed _ _ _ _ _ updated => exact updated ▸ update_map field sock _ (fun _ => keeps ..) before
  | started _ _ _ _ updated => exact updated ▸ update_map field sock _ (fun _ => keeps ..) before
  | executed _ _ _ _ updated => exact updated ▸ update_map field sock _ (fun _ => keeps ..) before
  | discarded _ _ _ _ updated => exact updated ▸ update_map field sock _ (fun _ => keeps ..) before

end Clients

section Steps

theorem open_mem (server : Server) (client : Client) :
    client ∈ openClients server ↔ client ∈ listed server.clientList ∨ client ∈ server.unlisted := by
  simp [openClients]

/-- The fields of the open clients that only connecting and closing change. -/
theorem execute_map {Field : Type} (field : Client → Field)
    (keeps : ∀ ptr socket capacity buffer tx tx' errors errors' queue queue' size size',
      field ⟨ptr, socket, capacity, buffer, tx, errors, queue, size⟩ =
        field ⟨ptr, socket, capacity, buffer, tx', errors', queue', size'⟩)
    (oracle : Oracle) (sock : Int) (buffer : Bytes) (server : Server) (wf : Wellformed server)
    (short : buffer.length < 2 ^ 31) :
    (openClients (executeCommand oracle sock buffer server).server).map field =
      (openClients server).map field := by
  obtain ⟨-, fixed⟩ := execute_sound oracle sock buffer server short wf.queueable wf.sound
  have unlisted : (executeCommand oracle sock buffer server).server.unlisted = server.unlisted :=
    congrArg Prod.fst fixed
  have same := transition_map field keeps _ _ _ _ _ _
    (execute_transition oracle sock buffer server wf.ready)
  simp [openClients, unlisted, same]

theorem execute_wellformed (oracle : Oracle) (sock : Int) (buffer : Bytes) (server : Server)
    (wf : Wellformed server) (short : buffer.length < 2 ^ 31) :
    Wellformed (executeCommand oracle sock buffer server).server := by
  obtain ⟨sound, fixed⟩ := execute_sound oracle sock buffer server short wf.queueable wf.sound
  have unlisted : (executeCommand oracle sock buffer server).server.unlisted = server.unlisted :=
    congrArg Prod.fst fixed
  have config : (executeCommand oracle sock buffer server).server.config = server.config :=
    congrArg Prod.snd fixed
  have proper := transition_proper _ _ _ _ _ _ (cstr_plain buffer short)
    (execute_transition oracle sock buffer server wf.ready)
    fun client member => ⟨wf.idle client member, wf.queueable client member⟩
  have sockets := execute_map (fun client => client.socket) (fun _ _ _ _ _ _ _ _ _ _ _ _ => rfl) oracle sock buffer
    server wf short
  have ptrs := execute_map (fun client => client.ptr) (fun _ _ _ _ _ _ _ _ _ _ _ _ => rfl) oracle sock buffer server
    wf short
  have buffers := execute_map (fun client => client.buffer) (fun _ _ _ _ _ _ _ _ _ _ _ _ => rfl) oracle sock buffer
    server wf short
  constructor
  · exact sound
  · exact fun client member => (proper client member).idle
  · exact fun client member => (proper client member).queueable
  · rw [unlisted]
    exact wf.outside
  · intro client member
    have inside := List.mem_map_of_mem (f := fun client : Client => client.buffer) member
    rw [buffers] at inside
    obtain ⟨old, there, same⟩ := List.mem_map.mp inside
    exact same.symm.trans (wf.buffers old there)
  · rw [sockets]
    exact wf.sockets
  · rw [ptrs]
    exact wf.ptrs
  · intro client member
    have inside := List.mem_map_of_mem (f := fun client : Client => client.socket) member
    rw [sockets] at inside
    obtain ⟨old, there, same⟩ := List.mem_map.mp inside
    exact same ▸ wf.positive old there
  · rw [config]
    exact wf.bufferSize

theorem reset_of_empty (client : Client) (empty : client.buffer = []) : resetBuffer client = client := by
  cases client
  simp_all [resetBuffer]

/-- Between commands all buffers are empty, so resetting one changes nothing. -/
theorem read_input_server (oracle : Oracle) (client : Client) (chunk : Bytes) (server : Server)
    (wf : Wellformed (executeCommand oracle client.socket (client.buffer ++ chunk) server).server) :
    (readInput oracle client chunk server).server =
      (executeCommand oracle client.socket (client.buffer ++ chunk) server).server := by
  -- Neither part of the buffer reset changes the state that the call reached.
  generalize reached : executeCommand oracle client.socket (client.buffer ++ chunk) server = outcome
    at wf
  have first : updateClient client.socket resetBuffer outcome.server.clientList =
      outcome.server.clientList := by
    rw [update_congr client.socket resetBuffer (fun client => client), update_id]
    intro other found
    exact reset_of_empty other
      (wf.buffers other ((open_mem _ _).mpr (Or.inl (get_mem _ _ _ found).1)))
  have second : resetUnlisted client.socket outcome.server.unlisted = outcome.server.unlisted := by
    refine (List.map_congr_left fun other member => ?_).trans (List.map_id _)
    split
    · exact reset_of_empty other (wf.buffers other ((open_mem _ _).mpr (Or.inr member)))
    · rfl
  simp [readInput, reached, first, second]

/-- Clients may go, and nothing else is looked at. -/
theorem shrink_wellformed (server after : Server) (wf : Wellformed server)
    (db : after.db = server.db) (config : after.config = server.config)
    (slots : (listed after.clientList).Sublist (listed server.clientList))
    (others : after.unlisted.Sublist server.unlisted) : Wellformed after := by
  have sub : (openClients after).Sublist (openClients server) := slots.append others
  constructor
  · exact db ▸ wf.sound
  · exact fun client member => wf.idle client (slots.subset member)
  · exact fun client member => wf.queueable client (slots.subset member)
  · exact fun client member => wf.outside client (others.subset member)
  · exact fun client member => wf.buffers client (sub.subset member)
  · exact wf.sockets.sublist (sub.map _)
  · exact wf.ptrs.sublist (sub.map _)
  · exact fun client member => wf.positive client (sub.subset member)
  · exact config ▸ wf.bufferSize

theorem same_wellformed (server after : Server) (wf : Wellformed server)
    (db : after.db = server.db) (same : SameClients server after) : Wellformed after :=
  shrink_wellformed server after wf db same.config (same.clientList ▸ List.Sublist.refl _)
    (same.unlisted ▸ List.Sublist.refl _)

theorem disconnect_wellformed (client : Client) (server : Server) (wf : Wellformed server) :
    Wellformed (disconnectClient client server).1 := by
  refine shrink_wellformed server _ wf rfl rfl ?_ List.filter_sublist
  simp only [disconnectClient, unregister_listed]
  exact List.eraseP_sublist

/-- Closing a connection takes its client away and no other. -/
theorem disconnect_open (client : Client) (server : Server) (wf : Wellformed server) :
    listed (disconnectClient client server).1.clientList =
        (listed server.clientList).filter (·.ptr ≠ client.ptr) ∧
      openClients (disconnectClient client server).1 =
        (openClients server).filter (·.ptr ≠ client.ptr) := by
  have distinct : ((listed server.clientList).map (·.ptr)).Nodup :=
    wf.ptrs.sublist ((List.sublist_append_left _ _).map _)
  have rest : listed (disconnectClient client server).1.clientList =
      (listed server.clientList).filter (·.ptr ≠ client.ptr) := by
    simp only [disconnectClient, unregister_listed, erase_unique (fun client : Client => client.ptr) _ _ distinct]
  constructor
  · exact rest
  · rw [openClients, rest, openClients, List.filter_append]
    rfl

/-- Among the open connections, a socket and an address name the same client. -/
theorem open_socket_ptr (server : Server) (wf : Wellformed server) (client other : Client)
    (member : client ∈ openClients server) (there : other ∈ openClients server) :
    other.ptr = client.ptr ↔ other.socket = client.socket := by
  constructor
  · intro same
    rw [List.inj_on_of_nodup_map wf.ptrs there member same]
  · intro same
    rw [List.inj_on_of_nodup_map wf.sockets there member same]

theorem connect_open (ptr : Nat) (socket : Int) (server : Server) :
    (openClients (connectClient (newClient ptr socket server.config) server)).Perm
      (newClient ptr socket server.config :: openClients server) := by
  by_cases free : none ∈ server.clientList
  · have registered := register_listed (newClient ptr socket server.config) _ free
    simpa [openClients, connectClient, free] using registered.append_right server.unlisted
  · simp [openClients, connectClient, free, register_full _ _ free]

theorem connect_listed (ptr : Nat) (socket : Int) (server : Server) (client : Client)
    (member : client ∈ listed (connectClient (newClient ptr socket server.config) server).clientList) :
    client = newClient ptr socket server.config ∨ client ∈ listed server.clientList := by
  by_cases free : none ∈ server.clientList
  · simpa using (register_listed (newClient ptr socket server.config) _ free).subset member
  · exact Or.inr (by simpa [connectClient, register_full _ _ free] using member)

theorem connect_wellformed (ptr : Nat) (socket : Int) (server : Server) (wf : Wellformed server)
    (possible : Possible server (.connect ptr socket)) :
    Wellformed (connectClient (newClient ptr socket server.config) server) := by
  rcases possible with ⟨positive, newSocket, newPtr⟩
  have idle : Idle (newClient ptr socket server.config) := init_idle _
  have perm := connect_open ptr socket server
  have properListed : ∀ client ∈ listed (connectClient (newClient ptr socket server.config)
      server).clientList, Proper client := by
    intro client member
    rcases connect_listed ptr socket server client member with rfl | old
    · exact Proper.of_idle idle
    · exact ⟨wf.idle client old, wf.queueable client old⟩
  constructor
  · exact wf.sound
  · exact fun client member => (properListed client member).idle
  · exact fun client member => (properListed client member).queueable
  · intro client member
    simp only [connectClient] at member
    split at member
    · exact wf.outside client member
    · rcases List.mem_cons.mp member with rfl | old
      · exact idle
      · exact wf.outside client old
  · intro client member
    rcases List.mem_cons.mp (perm.subset member) with rfl | old
    · rfl
    · exact wf.buffers client old
  · rw [(perm.map _).nodup_iff, List.map_cons, List.nodup_cons]
    exact ⟨newSocket, wf.sockets⟩
  · rw [(perm.map _).nodup_iff, List.map_cons, List.nodup_cons]
    exact ⟨newPtr, wf.ptrs⟩
  · intro client member
    rcases List.mem_cons.mp (perm.subset member) with rfl | old
    · exact positive
    · exact wf.positive client old
  · exact wf.bufferSize

/-- Every read starts at the front of the buffer, so its chunk is all that is executed. -/
theorem Wellformed.whole_input {server : Server} (wf : Wellformed server) (client : Client)
    (member : client ∈ openClients server) (chunk : Bytes) : client.buffer ++ chunk = chunk := by
  rw [wf.buffers client member, List.nil_append]

theorem Wellformed.input_short {server : Server} (wf : Wellformed server) (client : Client)
    (member : client ∈ openClients server) (chunk : Bytes)
    (fits : chunk.length < server.config.bufferSize) : (client.buffer ++ chunk).length < 2 ^ 31 := by
  have bound := wf.bufferSize
  rw [wf.whole_input client member chunk]
  omega

theorem read_executes (oracle : Oracle) (client : Client) (chunk : Bytes) (server : Server)
    (wf : Wellformed server) (member : client ∈ openClients server)
    (fits : chunk.length < server.config.bufferSize) :
    (readInput oracle client chunk server).server =
      (executeCommand oracle client.socket (client.buffer ++ chunk) server).server :=
  read_input_server oracle client chunk server
    (execute_wellformed oracle client.socket (client.buffer ++ chunk) server wf
      (wf.input_short client member chunk fits))

theorem read_wellformed (oracle : Oracle) (client : Client) (chunk : Bytes) (server : Server)
    (wf : Wellformed server) (member : client ∈ openClients server)
    (fits : chunk.length < server.config.bufferSize) :
    Wellformed (readInput oracle client chunk server).server := by
  rw [read_executes oracle client chunk server wf member fits]
  exact execute_wellformed oracle client.socket (client.buffer ++ chunk) server wf
    (wf.input_short client member chunk fits)

theorem open_client_mem (sock : Int) (server : Server) (client : Client)
    (found : openClient sock server = some client) :
    client ∈ openClients server ∧ client.socket = sock :=
  ⟨List.mem_of_find?_eq_some found, by simpa using List.find?_some found⟩

/-- The end of a connection, by its peer or by an event loop that does not know it. -/
def Closes (server : Server) (sock : Int) (chunk : Bytes) : Prop :=
  chunk = [] ∨ (server.config.concurrencyModel = .eventLoop ∧ findClient sock server = none)

/-- What the two handlers do with a chunk. -/
inductive Served (oracle : Oracle) (sock : Int) (chunk : Bytes) (server : Server) : Reading → Prop where
  | closed (client : Client) (member : client ∈ openClients server) (same : client.socket = sock)
      (ended : chunk = []) :
      Served oracle sock chunk server
        ⟨(disconnectClient client server).1, (disconnectClient client server).2, []⟩
  | read (client : Client) (member : client ∈ openClients server) (same : client.socket = sock)
      (stays : ¬ Closes server sock chunk) :
      Served oracle sock chunk server (readInput oracle client chunk server)
  | dropped (loop : server.config.concurrencyModel = .eventLoop)
      (missing : findClient sock server = none) :
      Served oracle sock chunk server
        ⟨{ server with unlisted := server.unlisted.filter (·.socket ≠ sock) }, [.closed sock], []⟩
  | absent (missing : sock ∉ (openClients server).map (·.socket)) :
      Served oracle sock chunk server ⟨server, [], []⟩

theorem serve_cases (oracle : Oracle) (sock : Int) (chunk : Bytes) (server : Server) :
    Served oracle sock chunk server (serve oracle sock chunk server) := by
  unfold serve
  split
  case h_1 threaded =>
    have stays (more : chunk ≠ []) : ¬ Closes server sock chunk := by
      rintro (ended | ⟨loop, -⟩)
      · exact more ended
      · simp [threaded] at loop
    simp only [handleClient]
    split
    case h_1 missing =>
      apply Served.absent
      intro there
      obtain ⟨client, member, same⟩ := List.mem_map.mp there
      simpa [same] using List.find?_eq_none.mp missing client member
    case h_2 client found =>
      obtain ⟨member, same⟩ := open_client_mem _ _ _ found
      split
      case isTrue ended => exact .closed client member same ended
      case isFalse more => exact .read client member same (stays more)
  case h_2 loop =>
    simp only [handleClientMessage]
    split
    case h_1 missing => exact .dropped loop missing
    case h_2 client found =>
      obtain ⟨member, same⟩ := get_mem _ _ _ found
      have inside := (open_mem server client).mpr (Or.inl member)
      split
      case isTrue ended => exact .closed client inside same ended
      case isFalse more =>
        refine .read client inside same ?_
        rintro (ended | ⟨-, missing⟩)
        · exact more ended
        · simp [found] at missing

theorem serve_wellformed (oracle : Oracle) (sock : Int) (chunk : Bytes) (server : Server)
    (wf : Wellformed server) (fits : chunk.length < server.config.bufferSize) :
    Wellformed (serve oracle sock chunk server).server := by
  have served := serve_cases oracle sock chunk server
  generalize serve oracle sock chunk server = reading at served
  cases served with
  | closed client member => exact disconnect_wellformed client server wf
  | read client member => exact read_wellformed oracle client chunk server wf member fits
  | dropped =>
      exact shrink_wellformed server _ wf rfl rfl (List.Sublist.refl _) List.filter_sublist
  | absent => exact wf

theorem crlf_line_length (pos : Nat) (line buffer : Bytes) :
    ∀ found ∈ (crlfLines pos line buffer).1, found.1.length ≤ line.length + buffer.length := by
  -- What is held and what is still to come bound every line together.
  induction buffer generalizing pos line with
  | nil => simp [crlfLines]
  | cons c rest ih =>
      simp only [crlfLines]
      split
      · simp
      · split
        · intro found member
          rcases List.mem_cons.mp member with rfl | later
          · simp only [List.length_dropLast, List.length_cons]
            omega
          · have bound := ih (pos + 1) [] found later
            simp only [List.length_nil, List.length_cons] at bound ⊢
            omega
        · intro found member
          have bound := ih (pos + 1) (line ++ [c]) found member
          simp only [List.length_append, List.length_cons, List.length_nil] at bound ⊢
          omega

/-- What the advances of the offset and the lines preserve, a pass over the lines preserves. -/
theorem execute_lines_rule (Invariant : Server → Prop) (oracle : Nat → Oracle)
    (lines : List (Bytes × Nat))
    (advances : ∀ stop server, Invariant server → Invariant (advanceOffset stop server))
    (executes : ∀ index, ∀ line ∈ lines, ∀ server, Invariant server →
      Invariant (executeCommand (oracle index) (-1) line.1 server).server)
    (index : Nat) (server : Server) (holds : Invariant server) :
    Invariant (executeLines oracle index lines server).1 := by
  induction lines generalizing index server with
  | nil => exact holds
  | cons line rest ih =>
      rcases line with ⟨text, stop⟩
      have later := ih fun index other member => executes index other (List.mem_cons_of_mem _ member)
      simp only [executeLines]
      split
      · exact later (index + 1) _ (advances stop server holds)
      · have first := executes index (text, stop) List.mem_cons_self server holds
        exact later (index + 1) _ (advances stop _ first)

theorem advance_wellformed (stop : Nat) (server : Server) (wf : Wellformed server) :
    Wellformed (advanceOffset stop server) :=
  same_wellformed server _ wf rfl ⟨rfl, rfl, rfl⟩

theorem execute_lines_wellformed (oracle : Nat → Oracle) (lines : List (Bytes × Nat))
    (short : ∀ line ∈ lines, line.1.length < 2 ^ 31) (index : Nat) (server : Server)
    (wf : Wellformed server) : Wellformed (executeLines oracle index lines server).1 := by
  apply execute_lines_rule Wellformed oracle lines advance_wellformed _ index server wf
  intro index line member server wf
  exact execute_wellformed (oracle index) (-1) line.1 server wf (short line member)

/-- The replication thread acts for no connection: it changes no client and executes
    nothing that was queued. -/
theorem thread_line (oracle : Oracle) (line : Bytes) (server : Server)
    (ready : QueuesReady server.clientList) :
    (executeCommand oracle (-1) line server).server.clientList = server.clientList ∧
      executedInputs (-1) (executeCommand oracle (-1) line server).events = [] := by
  -- No client has the socket -1, so no transition but the quiet one is possible.
  have absent (client : Client) (found : getClientBySocket (-1) server.clientList = some client) :
      False := by
    rw [ready.thread_absent] at found
    cases found
  have transition := execute_transition oracle (-1) line server ready
  cases transition with
  | quiet same silent => exact ⟨same, silent.executed (-1)⟩
  | queued client found => exact (absent client found).elim
  | failed client found => exact (absent client found).elim
  | started client found => exact (absent client found).elim
  | executed client found => exact (absent client found).elim
  | discarded client found => exact (absent client found).elim

theorem lines_same_clients (oracle : Nat → Oracle) (lines : List (Bytes × Nat))
    (short : ∀ line ∈ lines, line.1.length < 2 ^ 31) (index : Nat) (server : Server)
    (wf : Wellformed server) : SameClients server (executeLines oracle index lines server).1 := by
  refine (execute_lines_rule (fun after => Wellformed after ∧ SameClients server after) oracle lines
    ?_ ?_ index server ⟨wf, SameClients.refl server⟩).2
  · intro stop after ⟨wf, same⟩
    exact ⟨advance_wellformed stop after wf, same.trans ⟨rfl, rfl, rfl⟩⟩
  · intro index line member after ⟨wf, same⟩
    have room := short line member
    have fixed := (execute_sound (oracle index) (-1) line.1 after room wf.queueable wf.sound).2
    have executed : SameClients after (executeCommand (oracle index) (-1) line.1 after).server :=
      ⟨(thread_line (oracle index) line.1 after wf.ready).1, congrArg Prod.fst fixed,
        congrArg Prod.snd fixed⟩
    exact ⟨execute_wellformed (oracle index) (-1) line.1 after wf room, same.trans executed⟩

/-- The lines in the replication thread's buffer are no longer than the buffer. -/
theorem received_short (server : Server) (chunk : Bytes) (wf : Wellformed server)
    (room : server.replicaBuffer.length + chunk.length < server.config.bufferSize) :
    ∀ line ∈ (crlfLines 0 [] (server.replicaBuffer ++ chunk)).1, line.1.length < 2 ^ 31 := by
  intro line member
  have bound := wf.bufferSize
  have length := crlf_line_length 0 [] (server.replicaBuffer ++ chunk) line member
  simp only [List.length_nil, List.length_append] at length
  omega

theorem replication_wellformed (oracle : Nat → Oracle) (received : Received) (connect : Connect)
    (server : Server) (wf : Wellformed server)
    (possible : Possible server (.replication oracle received connect)) :
    Wellformed (replicationThread oracle received connect server).1 := by
  have reconnected (repl : ReplicationInfo) :
      Wellformed (reconnect connect { server with repl := repl }).1 :=
    same_wellformed server _ wf rfl ⟨rfl, rfl, rfl⟩
  simp only [replicationThread]
  split
  · exact wf
  · exact wf
  · split
    · exact reconnected server.repl
    · exact wf
  · split
    case h_1 chunk =>
      have after := execute_lines_wellformed oracle
        (crlfLines 0 [] (server.replicaBuffer ++ chunk)).1
        (received_short server chunk wf possible) 0 server wf
      exact same_wellformed _ _ after rfl ⟨rfl, rfl, rfl⟩
    · exact wf
    · exact reconnected _

theorem replication_same_clients (oracle : Nat → Oracle) (received : Received) (connect : Connect)
    (server : Server) (wf : Wellformed server)
    (possible : Possible server (.replication oracle received connect)) :
    SameClients server (replicationThread oracle received connect server).1 := by
  simp only [replicationThread]
  split
  · exact SameClients.refl server
  · exact SameClients.refl server
  · split <;> exact ⟨rfl, rfl, rfl⟩
  · split
    case h_1 chunk =>
      have lines := lines_same_clients oracle _ (received_short server chunk wf possible) 0 server wf
      exact ⟨lines.clientList, lines.unlisted, lines.config⟩
    · exact SameClients.refl server
    · exact ⟨rfl, rfl, rfl⟩

theorem next_wellformed (server : Server) (step : ServerStep) (wf : Wellformed server)
    (possible : Possible server step) : Wellformed (next server step) := by
  cases step with
  | connect ptr socket => exact connect_wellformed ptr socket server wf possible
  | receive oracle socket chunk => exact serve_wellformed oracle socket chunk server wf possible.2
  | replication oracle received connect =>
      exact replication_wellformed oracle received connect server wf possible
  | sweep now =>
      have swept := clear_expired_sound now server.db wf.sound
      exact ⟨swept, wf.idle, wf.queueable, wf.outside, wf.buffers, wf.sockets, wf.ptrs,
        wf.positive, wf.bufferSize⟩
  | autoSave now saveNow io =>
      simp only [next, stepServer, autoSave]
      split
      · split
        · exact same_wellformed server _ wf rfl ⟨rfl, rfl, rfl⟩
        · exact same_wellformed server _ wf rfl ⟨rfl, rfl, rfl⟩
      · exact wf

theorem next_config (server : Server) (step : ServerStep) (wf : Wellformed server)
    (possible : Possible server step) : (next server step).config = server.config := by
  cases step with
  | connect ptr socket => rfl
  | sweep now => rfl
  | autoSave now saveNow io =>
      simp only [next, stepServer, autoSave]
      split
      · split <;> rfl
      · rfl
  | replication oracle received connect =>
      exact (replication_same_clients oracle received connect server wf possible).config
  | receive oracle sock chunk =>
      have served := serve_cases oracle sock chunk server
      simp only [next, stepServer]
      generalize serve oracle sock chunk server = reading at served
      cases served with
      | closed => rfl
      | dropped => rfl
      | absent => rfl
      | read client member same =>
          have short := wf.input_short client member chunk possible.2
          exact congrArg Prod.snd (execute_sound oracle client.socket (client.buffer ++ chunk) server short
            wf.queueable wf.sound).2

end Steps

section Reachable

/-- The server right after `main` has created an empty database. -/
structure Starts (server : Server) : Prop where
  db : ∃ alloc, dictCreate alloc 1024 = some server.db
  rest : ∃ now files config, server = initServer server.db now files config ∧
    config.bufferSize < 2 ^ 31

def Reachable (server : Server) : Prop :=
  ∃ start steps, Starts start ∧ Admitted Possible next start steps ∧ server = run next start steps

theorem listed_empty (slots : Nat) : listed (List.replicate slots none) = [] := by
  induction slots with
  | zero => rfl
  | succ slots ih => simpa [List.replicate_succ] using ih

theorem start_wellformed (server : Server) (starts : Starts server) : Wellformed server := by
  rcases starts with ⟨⟨alloc, created⟩, now, files, config, same, bound⟩
  have sound := create_sound alloc 1024 server.db created
  have clients : listed server.clientList = [] := by
    rw [same]
    exact listed_empty config.maxClients
  have unlisted : server.unlisted = [] := by rw [same]; rfl
  have none : openClients server = [] := by simp [openClients, clients, unlisted]
  constructor
  · exact sound
  · simp [clients]
  · simp [clients]
  · simp [unlisted]
  · simp [none]
  · simp [none]
  · simp [none]
  · simp [none]
  · rw [same]
    exact bound

/-- Every reachable state is well-formed. -/
theorem reachable_wellformed (server : Server) (reachable : Reachable server) :
    Wellformed server := by
  rcases reachable with ⟨start, steps, starts, admitted, rfl⟩
  exact run_invariant Possible next next_wellformed start (start_wellformed start starts) steps
    admitted

/-- The server that `main` starts at time zero in an empty directory. -/
def emptyServer : Server :=
  initServer ⟨ChainedTable.empty 1024, 1024, 0, 1023, 0, 0⟩ 0 (fun _ => none) loadDefaultConfig

theorem empty_starts : Starts emptyServer :=
  ⟨⟨true, rfl⟩, 0, fun _ => none, loadDefaultConfig, rfl, by decide⟩

theorem empty_reachable : Reachable emptyServer :=
  ⟨emptyServer, [], empty_starts, trivial, rfl⟩

theorem reachable_next (server : Server) (step : ServerStep) (reachable : Reachable server)
    (possible : Possible server step) : Reachable (next server step) := by
  rcases reachable with ⟨start, steps, starts, admitted, rfl⟩
  refine ⟨start, steps ++ [step], starts, ?_, by rw [run_append]; rfl⟩
  rw [admitted_append]
  exact ⟨admitted, possible, trivial⟩

/-- That server after its first connection. -/
def oneClient : Server := next emptyServer (.connect 1 7)

theorem empty_connects : Possible emptyServer (.connect 1 7) :=
  ⟨by omega, by decide, by decide⟩

theorem one_client_reachable : Reachable oneClient :=
  reachable_next _ _ empty_reachable empty_connects

theorem one_client_found : findClient 7 oneClient = some (newClient 1 7 loadDefaultConfig) := by
  decide

theorem one_client_open : 7 ∈ (openClients oneClient).map (·.socket) := by decide

/-- A server that one connection has sent one input. -/
def storing (input : String) : Server := next oneClient (.receive (calm 0) 7 (ascii input))

theorem storing_reachable (input : String) (short : (ascii input).length < 1024) :
    Reachable (storing input) :=
  reachable_next _ _ one_client_reachable ⟨one_client_open, short⟩

end Reachable

end CrimsonCache.ServerRuns
