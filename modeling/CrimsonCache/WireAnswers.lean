import CrimsonCache.ReplicaLines
import CrimsonCache.ReplyRuns
import CrimsonCache.RespValues
import CrimsonCache.SnapshotRoundTrip

/-!
The server as a client sees it, who has nothing but the bytes on its connection. Read
as RESP they are the answers of one map that the commands of all clients run on, one
for each of its requests and in their order.
-/

namespace CrimsonCache.WireAnswers

open CString Numerals Dictionary DeadlineMap Replies Transaction Pubsub Replication Tokenizer ServerState
  DataCommands StoredData Commands TransactionSteps Connections ReplicationThread ServerRuns
  WriteEffects AppliedWrites ExecLoop RequestReplies ReplyRuns ReplicaList ReplicaLines StepRuns Keyspace SocketFrames
  RespValues Runs

section Values

/-- What a reply helper is given to write. -/
def valueOf : Reply → Value
  | .string text => .simple text
  | .error text => .error text
  | .integer num => .integer num
  | .bulk text => .bulk (cstr text)
  | .nullBulk => .nullBulk

/-- In a buffer that it fits, a reply is the encoding of its value. -/
theorem fits_encodes (answer : Reply) (fits : Fits answer) :
    answer.writes.flatten = encode (valueOf answer) ∧ Clean (valueOf answer) := by
  cases answer with
  | string text =>
      obtain ⟨short, line⟩ := fits
      have start : (ascii "+").length = 1 := rfl
      have whole := uncut 1024 (ascii "+") text (by omega)
      refine ⟨?_, line⟩
      simp only [Reply.writes, List.flatten_cons, List.flatten_nil, List.append_nil, whole, valueOf, encode]
      exact List.append_assoc _ _ _
  | error text =>
      obtain ⟨short, line⟩ := fits
      have start : (ascii "-").length = 1 := rfl
      have whole := uncut 1024 (ascii "-") text (by omega)
      refine ⟨?_, line⟩
      simp only [Reply.writes, List.flatten_cons, List.flatten_nil, List.append_nil, whole, valueOf, encode]
      exact List.append_assoc _ _ _
  | integer num =>
      have short : (decimalInt num).length ≤ 28 := fits
      have start : (ascii ":").length = 1 := rfl
      have whole := uncut 32 (ascii ":") (decimalInt num) (by omega)
      refine ⟨?_, trivial⟩
      simp only [Reply.writes, List.flatten_cons, List.flatten_nil, List.append_nil, whole, valueOf, encode]
      exact List.append_assoc _ _ _
  | bulk text =>
      obtain ⟨some, short⟩ := fits
      have start : (ascii "$").length = 1 := rfl
      have whole := uncut 1024 (ascii "$") (decimal (strlen text)) (by omega)
      refine ⟨?_, trivial⟩
      simp only [Reply.writes, gt_iff_lt, some, ↓reduceIte, List.flatten_cons, List.flatten_nil, List.append_nil,
        whole, valueOf, encode]
      simp only [List.append_assoc, strlen]
  | nullBulk => exact ⟨rfl, trivial⟩

/-- Replies that fit are read back one by one. -/
theorem replies_read (answers : List Reply) (fit : ∀ answer ∈ answers, Fits answer) :
    let stream := answers.flatMap fun answer => answer.writes.flatten
    readMany (readValue stream.length) answers.length stream = some (answers.map valueOf, []) := by
  have encoded : (answers.flatMap fun answer => answer.writes.flatten) = encodeAll (answers.map valueOf) := by
    induction answers with
    | nil => rfl
    | cons first rest ih =>
        rw [List.forall_mem_cons] at fit
        rw [List.flatMap_cons, (fits_encodes first fit.1).1, ih fit.2, List.map_cons, encodeAll]
  have clean : CleanAll (answers.map valueOf) := by
    clear encoded
    induction answers with
    | nil => trivial
    | cons first rest ih =>
        rw [List.forall_mem_cons] at fit
        exact ⟨(fits_encodes first fit.1).2, ih fit.2⟩
  dsimp only
  rw [encoded]
  have read := read_encode_all (answers.map valueOf) clean _ le_rfl []
  rwa [List.append_nil, List.length_map] at read

end Values

section Sizes

theorem int_width (num : Int) (small : num.natAbs < 10 ^ 27) : (decimalInt num).length ≤ 28 := by
  have digits := decimal_width num.natAbs 27 (by decide) small
  simp only [decimalInt]
  split
  · rw [List.length_cons]
    omega
  · omega

/-- An open token may end where the input does. -/
def begun : ScanState → Nat
  | .skipping => 0
  | .token _ => 1
  | .quoted _ _ => 1

theorem scan_count (state : ScanState) (input : Bytes) :
    (scan state input).length ≤ input.length + begun state := by
  fun_induction scan state input with
  | case1 => exact Nat.zero_le _
  | case2 c rest blank ih => simpa [begun] using Nat.le_succ_of_le ih
  | case3 rest blank ih => simpa [begun] using ih
  | case4 c rest blank plain ih => simpa [begun] using ih
  | case5 start => simp [begun]
  | case6 start c rest blank ih =>
      simp only [begun, List.length_cons] at ih ⊢
      omega
  | case7 start c rest solid ih =>
      simp only [begun, List.length_cons] at ih ⊢
      omega
  | case8 => simp [begun]
  | case9 prev start c rest closing ih =>
      simp only [begun, List.length_cons] at ih ⊢
      omega
  | case10 prev start c rest inside ih =>
      simp only [begun, List.length_cons] at ih ⊢
      omega

theorem tokens_count (input : Bytes) : (tokens input).length ≤ input.length := by
  have count := scan_count .skipping input
  rw [tokens_scan]
  simpa [begun] using count

theorem del_count_le (keys : List Bytes) (m : Mapping) : delCount keys m ≤ keys.length := by
  induction keys generalizing m with
  | nil => exact Nat.le_refl _
  | cons key rest ih =>
      have later := ih (drop m key)
      simp only [delCount, List.length_cons]
      split <;> omega

theorem exists_count_le (clock : Nat → Nat) (keys : List Bytes) (m : Mapping) :
    existsCount clock keys m ≤ keys.length := by
  induction keys generalizing clock m with
  | nil => exact Nat.le_refl _
  | cons key rest ih =>
      have later := ih (fun index => clock (index + 1)) (settle (expired (clock 0)) m key)
      simp only [existsCount, List.length_cons]
      split <;> omega

/-- What is found in a map of C strings is one, and its deadline a `uint64_t`. -/
theorem fetched_storable (db : Dict) (sound : Sound db) (dead : Nat → Bool) (key value : Bytes)
    (deadline : Nat) (found : fetch dead (mapping db) key = some (value, deadline)) :
    0 ∉ value ∧ value.length < 2 ^ 31 ∧ deadline < 2 ^ 64 := by
  have bound : mapping db key = some (value, deadline) := by
    simp only [fetch] at found
    exact (Option.filter_eq_some_iff.mp found).1
  obtain ⟨entry, member, -, same⟩ := (mapping_mem db sound.rep key _).mp bound
  have storable := sound.storable entry member
  simp only [binding, Prod.mk.injEq] at same
  rw [← same.1, ← same.2]
  exact ⟨storable.ptr, storable.ptrLength, storable.expire⟩

/-- An empty value is the only answer of the database that does not fit its buffer. -/
theorem answer_fits (env : Env) (argv : List Bytes) (few : argv.length < 2 ^ 31) (db : Dict)
    (sound : Sound db) (command : Command) (answer : Reply) (said : handlerReply env argv (mapping db) command = some answer)
    (some : answer ≠ .bulk []) : Fits answer := by
  cases command with
  | set =>
      obtain rfl := Option.some.inj said
      decide
  | get =>
      obtain rfl := Option.some.inj said
      cases found : fetch (expired (env.clock 0)) (mapping db) (arg argv 1) with
      | none => trivial
      | some binding =>
          rcases binding with ⟨value, deadline⟩
          obtain ⟨free, short, -⟩ := fetched_storable db sound _ _ _ _ found
          simp only [found] at some ⊢
          have whole : strlen value = value.length := by rw [strlen, cstr_of_nul_free value free]
          have digits := decimal_length value.length (by omega)
          refine ⟨?_, ?_⟩
          · rw [whole]
            exact List.length_pos_of_ne_nil fun empty => some (congrArg Reply.bulk empty)
          · rw [whole]
            omega
  | del =>
      obtain rfl := Option.some.inj said
      have count := del_count_le argv.tail (mapping db)
      refine int_width _ ?_
      simp only [List.length_tail] at count
      omega
  | exist =>
      obtain rfl := Option.some.inj said
      have count := exists_count_le env.clock argv.tail (mapping db)
      refine int_width _ ?_
      simp only [List.length_tail] at count
      omega
  | expire =>
      obtain rfl := Option.some.inj said
      refine int_width _ ?_
      split <;> decide
  | ttl =>
      obtain rfl := Option.some.inj said
      simp only [ttlReply]
      split
      · decide
      case h_2 deadline found =>
        obtain ⟨-, -, bound⟩ := fetched_storable db sound _ _ _ _ found
        split
        · decide
        · split
          · decide
          · refine int_width _ ?_
            omega
  | incr =>
      obtain rfl := Option.some.inj said
      split
      · decide
      case h_2 value found =>
        have least := @Int.le_bmod (value + 1) (2 ^ 64) (by decide)
        have most := @Int.bmod_lt (value + 1) (2 ^ 64) (by decide)
        refine int_width _ ?_
        omega
  | ping | save | bgsave | replicaof | role | replconf | multi | exec | discard | subscribe | unsubscribe
  | publish => cases said

end Sizes

section Relays

variable (fd : Int)

/-- The feed writes to the replicas. -/
theorem relayed_feed (cmd : Bytes) (delivery : Nat → Delivery) (replicas : List Replica)
    (absent : fd ∉ replicas.map (·.fd)) : relayed fd (feedWrites cmd delivery replicas) = [] := by
  induction replicas generalizing delivery with
  | nil => rfl
  | cons replica rest ih =>
      rw [List.map_cons, List.mem_cons, not_or] at absent
      rw [feedWrites, relayed_replica fd replica.fd (fun same => absent.1 same.symm)]
      exact ih _ absent.2

theorem relayed_fed (env : Env) (input : Bytes) (server : Server) (absent : fd ∉ fds server) :
    relayed fd (fedEvents env input server) = [] := by
  have writes :
      relayed fd (replicationFeedSlaves (env.alloc .feedCopy) env.delivery input server.repl).2 = [] := by
    simp only [replicationFeedSlaves]
    split
    · exact relayed_feed fd _ _ _ absent
    · rfl
  simpa [fedEvents, relayed, relays] using writes

variable (sock : Int) (execute : Nat → Bytes → Server → Outcome) (env : Env) (buffer : Bytes)
  (server : Server) (absent : fd ∉ fds server)

include absent

/-- A call that is no EXEC, and no REPLCONF of the connection's own, writes nothing to it as to
    a replica. -/
theorem call_relayed (apart : commandName (cstr buffer) = ascii "replconf" → sock ≠ fd)
    (direct : lower (tokens (cstr buffer)) ≠ [ascii "exec"]) :
    relayed fd (executeWith execute env sock buffer server).events = [] ∧
      fd ∉ fds (executeWith execute env sock buffer server).server := by
  have ran := execute_with_cases execute env sock buffer server
  generalize executeWith execute env sock buffer server = outcome at ran
  cases ran with
  | refused message =>
      refine ⟨?_, absent⟩
      simp only [refuse]
      split <;> rfl
  | queued =>
      refine ⟨?_, queue_input_fds env sock _ server ▸ absent⟩
      simp only [queueInput, replied]
      split
      · rfl
      · split <;> rfl
  | ran row member named arity =>
      have other : row.command ≠ .exec := fun exec => direct (exec_alone row member exec _ arity named)
      have foreign : row.command = .replconf → sock ≠ fd := fun same =>
        apart (named ▸ replconf_name row member same)
      have handled := handler_relayed fd execute env sock (lower (tokens (cstr buffer))) server
        row.command other foreign
      have kept : fd ∉
          fds (runHandler execute env sock (lower (tokens (cstr buffer))) server row.command).server := by
        rcases handler_fds execute env sock (lower (tokens (cstr buffer))) server row.command other with
          same | ⟨joins, -, -, -, grown⟩
        · exact same ▸ absent
        · rw [grown, List.mem_cons, not_or]
          exact ⟨fun same => foreign joins same.symm, absent⟩
      refine ⟨?_, fun there => kept ((propagate_fds env sock _ _ _).subset there)⟩
      rw [propagate_eq]
      split
      · rw [relayed_append, handled, relayed_fed fd env _ _ kept]
        rfl
      · exact handled

omit absent in
theorem queueable_direct (cmd : Bytes) (queueable : Queueable cmd) :
    lower (tokens (cstr cmd)) ≠ [ascii "exec"] := by
  intro alone
  have direct := queueable.direct
  rw [cstr_of_nul_free cmd queueable.plain.free] at alone
  rw [commandName, alone] at direct
  exact absurd direct (by decide)

omit absent in
theorem queue_relayed (oracle : Oracle) (apart : sock ≠ fd) (cmds : List Bytes)
    (queueable : ∀ cmd ∈ cmds, Queueable cmd) (index : Nat) (server : Server)
    (absent : fd ∉ fds server) :
    let ran := runQueued (fun index cmd server => executeCommandAt 0 (oracle.inner index) sock cmd server)
      sock index cmds server
    relayed fd ran.2 = [] ∧ fd ∉ fds ran.1 := by
  induction cmds generalizing index server with
  | nil => exact ⟨rfl, absent⟩
  | cons cmd rest ih =>
      rw [List.forall_mem_cons] at queueable
      obtain ⟨quiet, kept⟩ := call_relayed fd sock (fun _ _ server => ⟨server, [], .unknown⟩)
        (oracle.inner index []) cmd server absent (fun _ => apart) (queueable_direct cmd queueable.1)
      obtain ⟨later, final⟩ := ih queueable.2 (index + 1) _ kept
      refine ⟨?_, final⟩
      have first : relayed fd (executeCommandAt 0 (oracle.inner index) sock cmd server).events = [] := quiet
      simp only [runQueued, relayed, List.filter_cons, List.filter_append] at first later ⊢
      rw [first]
      exact later

/-- What the queue of an EXEC adds to that. -/
theorem execute_relayed (oracle : Oracle) (ready : QueuesReady server.clientList)
    (apart : commandName (cstr buffer) = ascii "replconf" ∨
      lower (tokens (cstr buffer)) = [ascii "exec"] → sock ≠ fd) :
    relayed fd (executeCommand oracle sock buffer server).events = [] ∧
      fd ∉ fds (executeCommand oracle sock buffer server).server := by
  by_cases alone : lower (tokens (cstr buffer)) = [ascii "exec"]
  · have ended := exec_cases oracle sock buffer server alone
    cases queue : execQueue oracle sock server with
    | none =>
        simp only [queue] at ended
        generalize executeCommand oracle sock buffer server = outcome at ended
        cases ended with
        | refused message =>
            refine ⟨?_, absent⟩
            simp only [refuse]
            split <;> rfl
        | rejected => exact ⟨rfl, absent⟩
        | discarded => exact ⟨rfl, absent⟩
    | some cmds =>
        simp only [queue] at ended
        obtain ⟨client, member, -, same⟩ := exec_queue_client oracle sock server cmds queue
        obtain ⟨quiet, kept⟩ := queue_relayed fd sock oracle (apart (.inr alone)) cmds
          (fun cmd inside => ready.queueable client member cmd (same ▸ inside)) 0
          (modifyClient sock txCleanup server) absent
        rw [ended]
        exact ⟨quiet, kept⟩
  · exact call_relayed fd sock _ (oracle []) buffer server absent (fun joins => apart (.inl joins)) alone

end Relays

section Steps

variable {fd : Int} {server : Server} (connected : 0 ≤ fd)

include connected in
theorem lines_relayed (oracle : Nat → Oracle) (lines : List (Bytes × Nat))
    (short : ∀ line ∈ lines, line.1.length < 2 ^ 31) (index : Nat) (server : Server)
    (wf : Wellformed server) (absent : fd ∉ fds server) :
    relayed fd (executeLines oracle index lines server).2 = [] ∧
      fd ∉ fds (executeLines oracle index lines server).1 := by
  induction lines generalizing index server with
  | nil => exact ⟨rfl, absent⟩
  | cons line rest ih =>
      rcases line with ⟨text, stop⟩
      rw [List.forall_mem_cons] at short
      simp only [executeLines]
      split
      · exact ih short.2 (index + 1) _ (advance_wellformed stop server wf) absent
      · have kept := execute_wellformed (oracle index) (-1) text server wf short.1
        obtain ⟨quiet, unlinked⟩ := execute_relayed fd (-1) text server absent (oracle index) wf.ready
          (fun _ => by omega)
        obtain ⟨later, final⟩ := ih short.2 (index + 1) _ (advance_wellformed stop _ kept) unlinked
        refine ⟨?_, final⟩
        simp only [relayed, List.filter_cons, List.filter_append] at quiet later ⊢
        rw [quiet, later]
        rfl

theorem reconnect_relayed (connect : Connect) (server : Server) :
    relayed fd (reconnect connect server).2 = [] := relayed_set_primary fd connect _ _ _ _

/-- A step writes nothing to the connection as to a replica, if the connection itself asks for no sync. -/
theorem step_relayed (wf : Wellformed server) (step : ServerStep) (possible : Possible server step)
    (absent : fd ∉ fds server)
    (apart : ∀ oracle chunk, step = .receive oracle fd chunk →
      commandName (cstr chunk) ≠ ascii "replconf" ∧ lower (tokens (cstr chunk)) ≠ [ascii "exec"])
    (connected : 0 ≤ fd) :
    relayed fd (stepServer server step).2 = [] ∧ fd ∉ fds (next server step) := by
  cases step with
  | connect ptr socket => exact ⟨rfl, absent⟩
  | sweep now => exact ⟨rfl, absent⟩
  | autoSave now saveNow io =>
      refine ⟨rfl, ?_⟩
      simp only [next, stepServer, autoSave]
      split
      · split <;> exact absent
      · exact absent
  | replication oracle received connect =>
      simp only [next, stepServer, replicationThread]
      split
      · exact ⟨rfl, absent⟩
      · exact ⟨rfl, absent⟩
      · split
        · exact ⟨reconnect_relayed connect server, reconnect_fds connect server ▸ absent⟩
        · exact ⟨rfl, absent⟩
      · cases received with
        | wouldBlock => exact ⟨rfl, absent⟩
        | lost =>
            refine ⟨?_, by rwa [reconnect_fds]⟩
            simp [losePrimary, reconnect_relayed connect]
        | data chunk =>
            obtain ⟨quiet, kept⟩ := lines_relayed connected oracle _
              (received_short server chunk wf possible) 0 server wf absent
            refine ⟨quiet, ?_⟩
            simp only [receiveFromPrimary, fds, markConnected] at kept ⊢
            split <;> exact kept
  | receive oracle sock chunk =>
      have served := serve_cases oracle sock chunk server
      simp only [next, stepServer]
      generalize serve oracle sock chunk server = reading at served
      cases served with
      | closed => exact ⟨rfl, absent⟩
      | dropped => exact ⟨rfl, absent⟩
      | absent => exact ⟨rfl, absent⟩
      | read client member same =>
          subst same
          have whole := wf.whole_input client member chunk
          refine execute_relayed fd client.socket (client.buffer ++ chunk) server absent oracle wf.ready ?_
          rintro asks rfl
          rw [whole] at asks
          obtain ⟨joins, exec⟩ := apart oracle chunk rfl
          exact asks.elim joins exec

end Steps

section Clients

/-- The connection is in no transaction. -/
def Outside (sock : Int) (clients : ClientList) : Prop :=
  ∀ client ∈ listed clients, client.socket = sock → client.inTransaction = false

variable {sock : Int}

/-- Only its own MULTI takes a connection into a transaction. -/
theorem transition_outside (ok : Bool) (other : Int) (input : Bytes) (before after : ClientList)
    (events : List Event) (transition : Transition ok other input before after events)
    (outside : Outside sock before) (own : other = sock → lower (tokens input) ≠ [ascii "multi"]) :
    Outside sock after := by
  intro client member mine
  have changed (change : Client → Client) (keeps : KeepsSocket change)
      (updated : after = updateClient other change before) (apart : other ≠ sock) :
      client.inTransaction = false := by
    rw [updated] at member
    rcases update_mem other change before client member with old | ⟨old, found, rfl⟩
    · exact outside client old mine
    · exact absurd ((get_mem other before old found).2.symm.trans ((keeps old).symm.trans mine)) apart
  have foreign (holder : Client) (found : getClientBySocket other before = some holder)
      (inside : holder.inTransaction = true) : other ≠ sock := by
    rintro rfl
    obtain ⟨there, socket⟩ := get_mem other before holder found
    rw [outside holder there socket] at inside
    cases inside
  cases transition with
  | quiet same => exact outside client (same ▸ member) mine
  | queued holder found inside capacity nonempty direct updated =>
      exact changed _ (enqueue_keeps input capacity) updated (foreign holder found inside)
  | failed holder found inside capacity direct updated =>
      exact changed _ (failed_keeps capacity) updated (foreign holder found inside)
  | started holder found out alone updated =>
      exact changed _ begin_keeps updated fun same => own same alone
  | executed holder found inside alone updated =>
      exact changed _ cleanup_keeps updated (foreign holder found inside)
  | discarded holder found inside alone updated =>
      exact changed _ cleanup_keeps updated (foreign holder found inside)

/-- A connection that asks the database, and waits for nothing else. -/
structure Asking (sock : Int) (server : Server) : Prop where
  talking : Talking sock server
  outside : Outside sock server.clientList
  unlinked : sock ∉ fds server

/-- All that the connection sends are commands of the database. The others do as they like. -/
def Asks (sock : Int) (server : Server) (step : ServerStep) : Prop :=
  Talks sock server step ∧ Allocating step ∧
    ∀ oracle chunk, step = .receive oracle sock chunk → isData (tokens (cstr chunk)) = true

/-- A command of the database is neither REPLCONF nor one of those for transactions. -/
theorem data_named (words : List Bytes) (data : isData words = true) :
    arg (lower words) 0 ≠ ascii "replconf" ∧ lower words ≠ [ascii "exec"] ∧
      lower words ≠ [ascii "multi"] ∧ lower words ≠ [ascii "discard"] := by
  have rows : ∀ row ∈ commands, onDatabase row.command = true → row.name ≠ ascii "replconf" ∧
      row.name ≠ ascii "exec" ∧ row.name ≠ ascii "multi" ∧ row.name ≠ ascii "discard" := by decide
  simp only [isData, Option.any_eq_true] at data
  obtain ⟨row, found, kind⟩ := data
  have named : row.name = arg (lower words) 0 := by simpa using List.find?_some found
  obtain ⟨joins, exec, multi, discard⟩ :=
    rows row (List.mem_of_find?_eq_some found) (Bool.and_eq_true_iff.mp kind).2
  rw [named] at joins exec multi discard
  exact ⟨joins, fun alone => exec (by rw [alone]; rfl), fun alone => multi (by rw [alone]; rfl),
    fun alone => discard (by rw [alone]; rfl)⟩

/-- It is answered. -/
theorem data_answered (env : Env) (words : List Bytes) (m : Mapping) (data : isData words = true) :
    ∃ row answer, replyWords env words m = some answer ∧
      handlerReply env (lower words) m row = some answer := by
  simp only [isData, Option.any_eq_true] at data
  obtain ⟨row, found, kind⟩ := data
  simp only [Bool.and_eq_true, Bool.not_eq_true'] at kind
  obtain ⟨arity, kind⟩ := kind
  have answered : ∃ answer, handlerReply env (lower words) m row.command = some answer := by
    cases command : row.command with
    | set | get | del | exist | expire | ttl | incr => exact ⟨_, rfl⟩
    | ping | save | bgsave | replicaof | role | replconf | multi | exec | discard | subscribe | unsubscribe
    | publish => simp [command, onDatabase] at kind
  obtain ⟨answer, said⟩ := answered
  refine ⟨row.command, answer, ?_, said⟩
  simp only [replyWords, found, arity, Bool.false_eq_true, ↓reduceIte, said]

variable {server : Server} (asking : Asking sock server)

include asking

theorem asking_outside : inTransaction sock server = false := by
  simp only [inTransaction, Bool.and_eq_false_iff]
  right
  cases found : findClient sock server with
  | none => rfl
  | some client =>
      obtain ⟨member, socket⟩ := get_mem sock server.clientList client found
      exact asking.outside client member socket

theorem asking_attended : (attended sock server).isSome = true := by
  obtain ⟨client, member, rfl⟩ := asking.talking.registered
  simp only [attended]
  split
  · simp only [openClient, List.find?_isSome]
    exact ⟨client, List.mem_append_left _ member, by simp⟩
  · have distinct := asking.talking.wf.sockets.sublist ((List.sublist_append_left _ _).map _)
    rw [findClient, get_unique server.clientList distinct client member]
    rfl

theorem asking_next (step : ServerStep) (asks : Asks sock server step) : Asking sock (next server step) := by
  obtain ⟨talks, allocates, data⟩ := asks
  have talking := talking_next asking.talking step talks
  have wf := asking.talking.wf
  refine ⟨talking, ?_, ?_⟩
  · -- As for the queue of the connection, only the steps of clients touch the list.
    have same (clients : (next server step).clientList = server.clientList) :
        Outside sock (next server step).clientList := clients ▸ asking.outside
    cases step with
    | sweep => exact same rfl
    | autoSave now saveNow io =>
        apply same
        simp only [next, stepServer, autoSave]
        split
        · split <;> rfl
        · rfl
    | replication oracle received connect =>
        exact same (replication_same_clients oracle received connect server wf talks.1).clientList
    | connect ptr other =>
        intro client member mine
        rcases connect_listed ptr other server client member with rfl | old
        · rfl
        · exact asking.outside client old mine
    | receive oracle other chunk =>
        have served := serve_cases oracle other chunk server
        simp only [next, stepServer] at same ⊢
        generalize serve oracle other chunk server = reading at same served ⊢
        cases served with
        | absent => exact same rfl
        | dropped => exact same rfl
        | closed client =>
            intro holder member mine
            have there := (disconnect_open client server wf).1 ▸ member
            exact asking.outside holder (List.mem_filter.mp there).1 mine
        | read client member own =>
            subst own
            have transition :=
              execute_transition oracle client.socket (client.buffer ++ chunk) server wf.ready
            rw [read_executes oracle client chunk server wf member talks.1.2]
            refine transition_outside _ _ _ _ _ _ transition asking.outside ?_
            rintro rfl
            rw [wf.whole_input client member chunk]
            exact (data_named _ (data oracle chunk rfl)).2.2.1
  · refine (step_relayed wf step talks.1 asking.unlinked (fun oracle chunk same => ?_)
      asking.talking.positive).2
    obtain ⟨joins, exec, -⟩ := data_named _ (data oracle chunk same)
    exact ⟨joins, exec⟩

end Clients

section Answers

/-- The one answer that is said to a connection is all that it is sent as replies. -/
theorem reply_alone (fd : Int) (answer : Reply) (events : List Event)
    (said : repliesOf events = [(fd, answer)]) (once : (replies fd events).length = 1) :
    replies fd events = [.reply fd answer] := by
  have listed : (fd, answer) ∈ repliesOf events := by
    rw [said]
    exact List.mem_singleton_self _
  obtain ⟨event, member, same⟩ := List.mem_filterMap.mp listed
  cases event with
  | reply target text =>
      obtain ⟨rfl, rfl⟩ := Prod.mk.inj (Option.some.inj same)
      have there : Event.reply target text ∈ replies target events :=
        List.mem_filter.mpr ⟨member, by simp [isReply]⟩
      obtain ⟨single, shape⟩ := List.length_eq_one_iff.mp once
      rw [shape, List.mem_singleton] at there
      rw [shape, there]
  | write | replicaWrite | fed | executing | forked | closed => cases same

theorem machine_socks (sock : Int) (runs : List HandlerRun) (m : Mapping) :
    ∀ said ∈ outputs actKeys sayKeys m (runs.map (runStep sock)), said.sock = sock := by
  induction runs generalizing m with
  | nil => simp [outputs]
  | cons first rest ih =>
      intro said member
      rw [List.map_cons, outputs, List.mem_append] at member
      rcases member with now | later
      · simp only [runStep, sayKeys, List.mem_map] at now
        obtain ⟨answer, -, rfl⟩ := now
        rfl
      · exact ih _ said later

variable {sock : Int} {server : Server} (asking : Asking sock server)

include asking

/-- A request is answered by one reply, of which every byte is sent. -/
theorem request_answered (oracle : Oracle) (chunk : Bytes)
    (asks : Asks sock server (.receive oracle sock chunk)) :
    ∃ answer, exchanges server (.receive oracle sock chunk) = [⟨sock, tokens (cstr chunk), answer⟩] ∧
      sentTo sock (stepServer server (.receive oracle sock chunk)).2 = answer.writes.flatten ∧
        (answer ≠ .bulk [] → Fits answer) := by
  obtain ⟨talks, allocates, data⟩ := asks
  have data := data oracle chunk rfl
  obtain ⟨joins, exec, -, discard⟩ := data_named _ data
  have wf := asking.talking.wf
  have outside := asking_outside asking
  have heard : Heard sock server oracle chunk :=
    ⟨talks.1, asking_attended asking, (talks.2.2 rfl).1, outside⟩
  obtain ⟨-, events, runs⟩ := heard_executes wf heard
  have direct : (inTransaction sock server && !isTxCommand (commandName (cstr chunk))) = false := by
    simp [outside]
  have run : stepRuns server (.receive oracle sock chunk) =
      (sock, [⟨oracle [], server, cstr chunk, executeCommand oracle sock chunk server⟩]) := by
    rw [runs]
    simp only [inputRuns, direct, Bool.false_eq_true, ↓reduceIte, handlerRuns, exec]
  obtain ⟨row, answer, known, said⟩ :=
    data_answered (oracle []) (tokens (cstr chunk)) (mapping server.db) data
  obtain ⟨-, replied⟩ := input_step
    (fun index cmd server => executeCommandAt 0 (oracle.inner index) sock cmd server)
    (oracle []) (allocates []) sock chunk server wf.sound direct exec
  rw [data, known] at replied
  have answered : repliesOf (executeCommand oracle sock chunk server).events = [(sock, answer)] := replied
  have once : (replies sock (executeCommand oracle sock chunk server).events).length = 1 := by
    have both := step_replies_iff asking.talking (.receive oracle sock chunk) talks
    simp only [StepReplies, StepDiscards, ↓reduceIte, announced, exec, RepliesOnce, events] at both
    exact both.mpr fun discards => discard discards.2.1
  have only := reply_alone sock answer _ answered once
  have apart : ∀ other text, ServerStep.receive oracle sock chunk = .receive other sock text →
      commandName (cstr text) ≠ ascii "replconf" ∧ lower (tokens (cstr text)) ≠ [ascii "exec"] := by
    intro other text same
    injection same with _ _ same
    exact same ▸ ⟨joins, exec⟩
  have quiet := (step_relayed wf (.receive oracle sock chunk) talks.1 asking.unlinked apart
    asking.talking.positive).1
  have few : (lower (tokens (cstr chunk))).length < 2 ^ 31 := by
    have count := tokens_count (cstr chunk)
    have text := cstr_length chunk
    have size := wf.bufferSize
    have room := talks.1.2
    rw [lower_length]
    omega
  refine ⟨answer, ?_, ?_, answer_fits (oracle []) _ few server.db wf.sound row answer said⟩
  · simp [exchanges, run, runExchanges, data, answered]
  · rw [sent_replies sock _ quiet, events, only]
    simp [sentTo, Event.sent]

/-- Nothing else is sent, and nothing said. -/
theorem others_silent (step : ServerStep) (asks : Asks sock server step)
    (other : ∀ oracle chunk, step ≠ .receive oracle sock chunk) :
    (exchanges server step).filter (·.sock = sock) = [] ∧ sentTo sock (stepServer server step).2 = [] := by
  obtain ⟨talks, allocates, -⟩ := asks
  have connected := asking.talking.positive
  have wf := asking.talking.wf
  have quiet := (step_relayed wf step talks.1 asking.unlinked
    (fun oracle chunk same => absurd same (other oracle chunk)) connected).1
  have replied := step_replies_iff asking.talking step talks
  have said := (step_keys server wf step talks.1 allocates).2
  have foreign (fd : Int) (runs : List HandlerRun) (apart : fd ≠ sock) :
      (outputs actKeys sayKeys (mapping server.db) (runs.map (runStep fd))).filter (·.sock = sock) = [] := by
    rw [List.filter_eq_nil_iff]
    intro exchange member
    simpa [machine_socks fd runs _ exchange member] using apart
  cases step with
  | connect | sweep | autoSave => exact ⟨rfl, rfl⟩
  | replication oracle received connect =>
      have silent := replied.mpr fun wrong => wrong
      refine ⟨?_, sent_nothing sock _ silent quiet⟩
      have thread : (stepRuns server (.replication oracle received connect)).1 = -1 := by
        simp only [stepRuns]
        split <;> rfl
      rw [said, keySteps, thread]
      · exact foreign (-1) _ (by omega)
      · simp
  | receive oracle fd chunk =>
      have apart : fd ≠ sock := fun same => other oracle chunk (same ▸ rfl)
      have silent := replied.mpr fun discards => apart discards.1
      simp only [StepReplies, apart, ↓reduceIte] at silent
      refine ⟨?_, sent_nothing sock _ silent quiet⟩
      rw [said, keySteps, runs_socket]
      · exact foreign fd _ apart
      · simp

end Answers

section Conversation

/-- What the connection asks for, request by request. -/
def requests (sock : Int) (steps : List ServerStep) : List (List Bytes) :=
  steps.filterMap fun
    | .receive _ other chunk => if other = sock then some (tokens (cstr chunk)) else none
    | _ => none

theorem requests_answered (sock : Int) (start : Server) (asking : Asking sock start) (steps : List ServerStep)
    (admitted : Admitted (Asks sock) next start steps) :
    let told := (outputs next exchanges start steps).filter (·.sock = sock)
    told.map (·.words) = requests sock steps ∧
      sentTo sock (outputs next (fun server step => (stepServer server step).2) start steps) =
        told.flatMap (fun said => said.reply.writes.flatten) ∧
      ∀ said ∈ told, said.reply ≠ .bulk [] → Fits said.reply := by
  induction steps generalizing start with
  | nil => exact ⟨rfl, rfl, by simp [outputs]⟩
  | cons step rest ih =>
      obtain ⟨asks, later⟩ := admitted
      obtain ⟨words, bytes, fit⟩ := ih (next start step) (asking_next asking step asks) later
      simp only [outputs, List.filter_append, List.map_append, sent_to_append, List.flatMap_append,
        List.forall_mem_append, words, bytes]
      by_cases own : ∃ oracle chunk, step = .receive oracle sock chunk
      · obtain ⟨oracle, chunk, rfl⟩ := own
        obtain ⟨answer, exchange, sent, fits⟩ := request_answered asking oracle chunk asks
        rw [exchange, sent]
        refine ⟨?_, ?_, ?_, fit⟩
        · simp [requests]
        · simp
        · simpa using fits
      · have other : ∀ oracle chunk, step ≠ .receive oracle sock chunk := fun oracle chunk same =>
          own ⟨oracle, chunk, same⟩
        obtain ⟨exchange, sent⟩ := others_silent asking step asks other
        rw [exchange, sent]
        refine ⟨?_, rfl, by simp, fit⟩
        cases step with
        | connect | replication | sweep | autoSave => simp [requests]
        | receive oracle fd chunk =>
            have apart : fd ≠ sock := fun same => other oracle chunk (same ▸ rfl)
            simp [requests, apart]

/-- A client that asks the database and reads what it is sent as RESP has, for each of its requests, the
    answer of one map that the commands of all clients run on. Only an empty value does not read back. -/
theorem client_reads_answers (server : Server) (reachable : Reachable server) (ptr : Nat) (sock : Int)
    (possible : Possible server (.connect ptr sock)) (free : none ∈ server.clientList)
    (unlinked : sock ∉ fds server) (steps : List ServerStep)
    (admitted : Admitted (Asks sock) next (next server (.connect ptr sock)) steps) :
    let start := next server (.connect ptr sock)
    let told := (outputs actKeys sayKeys (mapping server.db) (outputs next keySteps start steps)).filter
      (·.sock = sock)
    let stream := sentTo sock (outputs next (fun server step => (stepServer server step).2) start steps)
    told.map (·.words) = requests sock steps ∧
      ((∀ said ∈ told, said.reply ≠ .bulk []) →
        readMany (readValue stream.length) told.length stream =
          some (told.map fun said => valueOf said.reply, [])) := by
  intro start told stream
  have talking := connect_talking server reachable ptr sock possible free
  have asking : Asking sock start := by
    refine ⟨talking, ?_, unlinked⟩
    intro client member mine
    rcases connect_listed ptr sock server client member with rfl | old
    · rfl
    · exact absurd (List.mem_map.mpr ⟨client, List.mem_append_left _ old, mine⟩) possible.2.1
  obtain ⟨words, bytes, fit⟩ := requests_answered sock start asking steps admitted
  have said : outputs next exchanges start steps =
      outputs actKeys sayKeys (mapping start.db) (outputs next keySteps start steps) := by
    refine (run_abstracts (Asks sock) next (fun server => mapping server.db) actKeys sayKeys keySteps
      exchanges (fun _ step held taken => asking_next held step taken) (fun server step held taken => ?_)
      start asking steps admitted).2
    exact step_keys server held.talking.wf step taken.1.1 taken.2.1
  rw [said] at words bytes fit
  refine ⟨words, fun some => ?_⟩
  have read := replies_read (told.map (·.reply)) (by
    intro answer member
    obtain ⟨exchange, there, rfl⟩ := List.mem_map.mp member
    exact fit exchange there (some exchange there))
  simp only [List.flatMap_map, List.length_map, List.map_map] at read
  have same : stream = told.flatMap fun said => said.reply.writes.flatten := bytes
  rw [same]
  exact read

end Conversation

section Example

set_option maxRecDepth 4000

/-- A connection that stores a value with a blank in it. -/
def storesPhrase : List ServerStep := inputs ["SET k \"a b\"\r\n", "GET k\r\n", "DEL k\r\n"]

theorem asks_calmly (server : Server) (input : String)
    (opened : 7 ∈ (openClients server).map (·.socket))
    (short : (ascii input).length < server.config.bufferSize)
    (spoken : ascii input ≠ [] ∧ ¬ Subscribes (cstr (ascii input)))
    (data : isData (tokens (cstr (ascii input))) = true) :
    Asks 7 server (.receive (calm 0) 7 (ascii input)) := by
  refine ⟨talks_calmly server input opened short spoken, calm_allocates 0, ?_⟩
  rintro oracle chunk same
  injection same with _ _ same
  exact same ▸ data

/-- The connection has it back in one piece. -/
theorem phrase_is_read :
    let stream := sentTo 7 (outputs next (fun server step => (stepServer server step).2) oneClient storesPhrase)
    stream = ascii "+OK\r\n$3\r\na b\r\n:1\r\n" ∧
      readMany (readValue stream.length) 3 stream =
        some ([.simple (ascii "OK"), .bulk (ascii "a b"), .integer 1], []) := by
  have asks : Admitted (Asks 7) next oneClient storesPhrase :=
    ⟨asks_calmly _ _ (by decide) (by decide) (by decide) (by decide),
      asks_calmly _ _ (by decide) (by decide) (by decide) (by decide),
      asks_calmly _ _ (by decide) (by decide) (by decide) (by decide), trivial⟩
  have told : (outputs actKeys sayKeys (mapping emptyServer.db) (outputs next keySteps oneClient storesPhrase)).filter
      (·.sock = 7) = [⟨7, [ascii "SET", ascii "k", ascii "a b"], okReply⟩,
        ⟨7, [ascii "GET", ascii "k"], .bulk (ascii "a b")⟩, ⟨7, [ascii "DEL", ascii "k"], .integer 1⟩] := by
    decide
  obtain ⟨-, read⟩ := client_reads_answers emptyServer empty_reachable 1 7 empty_connects (by decide)
    (by decide) storesPhrase asks
  simp only [show next emptyServer (.connect 1 7) = oneClient from rfl, told] at read
  exact ⟨by decide, read (by decide)⟩

end Example

end CrimsonCache.WireAnswers
