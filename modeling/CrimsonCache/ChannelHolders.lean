import CrimsonCache.ServerRuns
import CrimsonCache.SubscriberLists

/-!
Who is on a channel in a run of the whole server. A node comes from a SUBSCRIBE
of its client, and goes at the latest when the connection does, so that every
node belongs to a listed client.
-/

namespace CrimsonCache.ChannelHolders

open CString Replies Transaction Pubsub Replication Tokenizer ServerState DataCommands Commands
  TransactionSteps Connections ReplicationThread ServerRuns SubscriberLists Runs

/-- The listed clients are known, and the channels hold nodes of `holders` only. -/
structure Held (known holders : List Subscriber) (server : Server) : Prop where
  clients : ∀ client ∈ listed server.clientList, subscriber client ∈ known
  enrolled : Enrolled holders server.channels

/-- Running the input may put a client of the connection on a channel. -/
def Joins (known holders : List Subscriber) (sock : Int) (input : Bytes) : Prop :=
  commandName (cstr input) = ascii "subscribe" →
    ∀ node ∈ known, node.socket = sock → node ∈ holders

section Calls

theorem subscribe_name : ∀ row ∈ commands, row.command = .subscribe → row.name = ascii "subscribe" := by
  decide

/-- Two handlers change the channels, and only for a listed client. -/
theorem handler_channels (execute : Nat → Bytes → Server → Outcome) (env : Env) (sock : Int)
    (argv : List Bytes) (server : Server) (command : Command) (direct : command ≠ .exec) :
    (runHandler execute env sock argv server command).server.channels = server.channels ∨
      (command = .subscribe ∧ ∃ client channel node, findClient sock server = some client ∧
        (runHandler execute env sock argv server command).server.channels =
          (pubsubSubscribeClient channel node client argv server.channels).1) ∨
      ∃ client, (runHandler execute env sock argv server command).server.channels =
        (pubsubUnsubscribeClient client argv server.channels).1 := by
  cases command with
  | exec => exact absurd rfl direct
  | ping | set | get | del | exist | expire | ttl | save | bgsave | replicaof | role | incr
  | replconf | multi | discard | publish =>
      exact Or.inl ((handler_untouched execute env sock argv server _ direct).channels (by decide) (by decide))
  | subscribe =>
      cases found : findClient sock server with
      | none => exact Or.inl (by simp [runHandler, subscribeCommand, found, replied])
      | some client =>
          exact Or.inr (Or.inl ⟨rfl, client, fun index => env.alloc (.channel index),
            fun index => env.alloc (.subscriber index), rfl, by
              simp [runHandler, subscribeCommand, found]⟩)
  | unsubscribe =>
      cases found : findClient sock server with
      | none => exact Or.inl (by simp [runHandler, unsubscribeCommand, found, replied])
      | some client =>
          exact Or.inr (Or.inr ⟨client, by simp [runHandler, unsubscribeCommand, found]⟩)

theorem execute_with_held (known holders : List Subscriber)
    (execute : Nat → Bytes → Server → Outcome) (env : Env) (sock : Int) (buffer : Bytes)
    (server : Server) (joins : Joins known holders sock buffer)
    (nested : ∀ client, findClient sock server = some client → client.inTransaction = true →
      ∀ index, ∀ cmd ∈ client.queuedCommands, ∀ server, Held known holders server →
        Held known holders (execute index cmd server).server)
    (held : Held known holders server) :
    Held known holders (executeWith execute env sock buffer server).server := by
  apply execute_with_rule (Held known holders) execute env sock buffer server
  · intro server clients same held
    refine ⟨fun client member => ?_, held.enrolled⟩
    obtain ⟨old, there, ptr, socket⟩ := same client member
    have known := held.clients old there
    rwa [subscriber, ptr, socket] at known
  · intro row member named apart _
    have clients := (handler_same_clients execute env sock (lower (tokens (cstr buffer))) server
      row.command apart).clientList
    refine ⟨fun client there => held.clients client (clients ▸ there), ?_⟩
    rcases handler_channels execute env sock (lower (tokens (cstr buffer))) server row.command
      apart.2.1 with same | ⟨same, client, channel, node, found, joined⟩ | ⟨client, left⟩
    · exact same ▸ held.enrolled
    · obtain ⟨there, socket⟩ := get_mem sock _ client found
      rw [joined]
      exact held.enrolled.subscribe channel node client
        (joins (named ▸ subscribe_name row member same) _ (held.clients client there) socket) _
    · exact left ▸ held.enrolled.unsubscribe client _
  · exact fun _ kept => ⟨kept.clients, kept.enrolled⟩
  · exact nested
  · exact held

theorem execute_held (known holders : List Subscriber) (oracle : Oracle) (sock : Int)
    (buffer : Bytes) (server : Server) (joins : Joins known holders sock buffer)
    (queued : ∀ client, findClient sock server = some client →
      ∀ cmd ∈ client.queuedCommands, Joins known holders sock cmd)
    (held : Held known holders server) :
    Held known holders (executeCommand oracle sock buffer server).server := by
  refine execute_with_held known holders _ _ _ _ _ joins ?_ held
  intro client found _ index cmd member inner kept
  refine execute_with_held known holders _ _ _ _ _ (queued client found cmd member) ?_ kept
  exact fun _ _ _ _ _ _ _ kept => kept

end Calls

section Steps

/-- The nodes that the listed clients may have. -/
def slots (keep : Subscriber → Bool) (server : Server) : List Subscriber :=
  ((listed server.clientList).map subscriber).filter keep

/-- No SUBSCRIBE of the step, direct or queued, adds a node that is not kept. -/
def Keeps (keep : Subscriber → Bool) (server : Server) : ServerStep → Prop
  | .receive _ sock chunk => ∀ input,
      (input = chunk ∨ ∃ client, findClient sock server = some client ∧ input ∈ client.queuedCommands) →
        commandName (cstr input) = ascii "subscribe" → ∀ node : Subscriber, node.socket = sock →
          keep node = true
  | .connect _ _ => True
  | .replication _ _ _ => True
  | .sweep _ => True
  | .autoSave _ _ _ => True

variable {keep : Subscriber → Bool} {server : Server}

theorem slots_held (enrolled : Enrolled (slots keep server) server.channels) :
    Held ((listed server.clientList).map subscriber) (slots keep server) server :=
  ⟨fun _ member => List.mem_map_of_mem member, enrolled⟩

theorem execute_slots (keep : Subscriber → Bool) (oracle : Oracle) (sock : Int) (buffer : Bytes)
    (server : Server) (ready : QueuesReady server.clientList) :
    slots keep (executeCommand oracle sock buffer server).server = slots keep server := by
  have same := transition_map subscriber (fun _ _ _ _ _ _ _ _ _ _ _ _ => rfl) _ _ _ _ _ _
    (execute_transition oracle sock buffer server ready)
  rw [slots, same, slots]

theorem line_enrolled (oracle : Oracle) (line : Bytes) (wf : Wellformed server)
    (enrolled : Enrolled (slots keep server) server.channels) :
    Enrolled (slots keep (executeCommand oracle (-1) line server).server)
      (executeCommand oracle (-1) line server).server.channels := by
  have absent : ∀ client ∈ listed server.clientList, client.socket ≠ -1 := by
    intro client member same
    have positive := wf.positive client (List.mem_append_left _ member)
    omega
  have joins (input : Bytes) :
      Joins ((listed server.clientList).map subscriber) (slots keep server) (-1) input := by
    intro _ node member socket
    obtain ⟨client, there, rfl⟩ := List.mem_map.mp member
    exact absurd socket (absent client there)
  rw [execute_slots keep oracle (-1) line server wf.ready]
  exact (execute_held _ _ oracle (-1) line server (joins line) (fun _ _ cmd _ => joins cmd)
    (slots_held enrolled)).enrolled

theorem execute_lines_enrolled (oracle : Nat → Oracle) (lines : List (Bytes × Nat))
    (short : ∀ line ∈ lines, line.1.length < 2 ^ 31) (index : Nat) (server : Server)
    (wf : Wellformed server) (enrolled : Enrolled (slots keep server) server.channels) :
    Enrolled (slots keep (executeLines oracle index lines server).1)
      (executeLines oracle index lines server).1.channels := by
  refine (execute_lines_rule (fun after => Wellformed after ∧
    Enrolled (slots keep after) after.channels) oracle lines ?_ ?_ index server ⟨wf, enrolled⟩).2
  · intro stop after ⟨wf, enrolled⟩
    exact ⟨advance_wellformed stop after wf, enrolled⟩
  · intro index line member after ⟨wf, enrolled⟩
    exact ⟨execute_wellformed (oracle index) (-1) line.1 after wf (short line member),
      line_enrolled (oracle index) line.1 wf enrolled⟩

theorem replication_enrolled (oracle : Nat → Oracle) (received : Received) (connect : Connect)
    (server : Server) (wf : Wellformed server)
    (possible : Possible server (.replication oracle received connect))
    (enrolled : Enrolled (slots keep server) server.channels) :
    Enrolled (slots keep (replicationThread oracle received connect server).1)
      (replicationThread oracle received connect server).1.channels := by
  simp only [replicationThread]
  split
  · exact enrolled
  · exact enrolled
  · split
    · exact enrolled
    · exact enrolled
  · cases received with
    | wouldBlock => exact enrolled
    | lost => exact enrolled
    | data chunk =>
        exact execute_lines_enrolled oracle _ (received_short server chunk wf possible) 0 server wf
          enrolled

theorem next_enrolled (step : ServerStep) (wf : Wellformed server)
    (possible : Possible server step) (keeps : Keeps keep server step)
    (enrolled : Enrolled (slots keep server) server.channels) :
    Enrolled (slots keep (next server step)) (next server step).channels := by
  cases step with
  | sweep now => exact enrolled
  | autoSave now saveNow io =>
      simp only [next, stepServer, autoSave]
      split
      · split <;> exact enrolled
      · exact enrolled
  | replication oracle received connect =>
      exact replication_enrolled oracle received connect server wf possible enrolled
  | connect ptr socket =>
      refine ⟨enrolled.distinct, fun name node member => ?_⟩
      have old := enrolled.held name node member
      simp only [slots, List.mem_filter, List.mem_map] at old ⊢
      obtain ⟨⟨client, there, same⟩, kept⟩ := old
      refine ⟨⟨client, ?_, same⟩, kept⟩
      by_cases free : none ∈ server.clientList
      · exact (register_listed _ _ free).symm.subset (List.mem_cons_of_mem _ there)
      · simpa [next, stepServer, connectClient, register_full _ _ free] using there
  | receive oracle sock chunk =>
      have served := serve_cases oracle sock chunk server
      simp only [next, stepServer]
      generalize serve oracle sock chunk server = reading at served
      cases served with
      | absent => exact enrolled
      | dropped => exact enrolled
      | closed client member =>
          obtain ⟨left, -⟩ := disconnect_open client server wf
          have removed := enrolled.remove client.ptr
          refine ⟨removed.distinct, fun name node member => ?_⟩
          have old := removed.held name node member
          simp only [slots, left, List.mem_filter, List.mem_map] at old ⊢
          obtain ⟨⟨⟨holder, there, rfl⟩, kept⟩, other⟩ := old
          exact ⟨⟨holder, ⟨there, other⟩, rfl⟩, kept⟩
      | read client member same =>
          subst same
          have whole := wf.whole_input client member chunk
          have joins (input : Bytes)
              (from_ : input = chunk ∨ ∃ client', findClient client.socket server = some client' ∧
                input ∈ client'.queuedCommands) :
              Joins ((listed server.clientList).map subscriber) (slots keep server) client.socket
                input := by
            intro name node known socket
            exact List.mem_filter.mpr ⟨known, keeps input from_ name node socket⟩
          rw [read_executes oracle client chunk server wf member possible.2,
            execute_slots keep _ _ _ _ wf.ready, whole]
          exact (execute_held _ _ oracle client.socket chunk server (joins chunk (Or.inl rfl))
            (fun holder found cmd queued => joins cmd (Or.inr ⟨holder, found, queued⟩))
            (slots_held enrolled)).enrolled

/-- In every state a node belongs to a listed client. -/
theorem reachable_enrolled (server : Server) (reachable : Reachable server) :
    Enrolled (slots (fun _ => true) server) server.channels := by
  obtain ⟨start, steps, starts, admitted, rfl⟩ := reachable
  have preserved : ∀ server step,
      Wellformed server ∧ Enrolled (slots (fun _ => true) server) server.channels →
      Possible server step →
      Wellformed (next server step) ∧
        Enrolled (slots (fun _ => true) (next server step)) (next server step).channels := by
    rintro server step ⟨wf, enrolled⟩ possible
    refine ⟨next_wellformed server step wf possible, next_enrolled step wf possible ?_ enrolled⟩
    cases step with
    | receive => exact fun _ _ _ _ _ => rfl
    | connect | replication | sweep | autoSave => trivial
  have enrolled : Enrolled (slots (fun _ => true) start) start.channels := by
    obtain ⟨now, files, config, same, -⟩ := starts.rest
    have none : start.channels = [] := by rw [same]; rfl
    exact none ▸ none_enrolled _
  exact (run_invariant Possible next preserved start ⟨start_wellformed start starts, enrolled⟩ steps
    admitted).2

end Steps

end CrimsonCache.ChannelHolders
